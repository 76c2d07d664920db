import PallasVesta.Json.Record
import PallasVesta.Proofs.AffineCoordinates
import PallasVesta.Proofs.BinaryDigits
import PallasVesta.Proofs.ByteEncoding
import PallasVesta.Proofs.ByteLists
import PallasVesta.Proofs.Canonicity
import PallasVesta.Proofs.CurveCycle
import PallasVesta.Proofs.CurveEquation
import PallasVesta.Proofs.DecimalTexts
import PallasVesta.Proofs.DelimitedTexts
import PallasVesta.Proofs.Endomorphism
import PallasVesta.Proofs.FieldRing
import PallasVesta.Proofs.GeneratorOrder
import PallasVesta.Proofs.GroupLaw
import PallasVesta.Proofs.IncompleteAddition
import PallasVesta.Proofs.Inverses
import PallasVesta.Proofs.JsonRoundTrip
import PallasVesta.Proofs.LimbOperations
import PallasVesta.Proofs.LongDivision
import PallasVesta.Proofs.Normalizations
import PallasVesta.Proofs.Numerals
import PallasVesta.Proofs.ObtainableValues
import PallasVesta.Proofs.PointEquality
import PallasVesta.Proofs.Powers
import PallasVesta.Proofs.Primality
import PallasVesta.Proofs.Product
import PallasVesta.Proofs.Quotients
import PallasVesta.Proofs.ReaderResults
import PallasVesta.Proofs.RecordFields
import PallasVesta.Proofs.RejectionSampling
import PallasVesta.Proofs.Representations
import PallasVesta.Proofs.Residue
import PallasVesta.Proofs.ResidueRing
import PallasVesta.Proofs.RootsOfUnity
import PallasVesta.Proofs.ScalarAction
import PallasVesta.Proofs.ScalarMultiples
import PallasVesta.Proofs.ShortDivision
import PallasVesta.Proofs.SquareRootRounds
import PallasVesta.Proofs.SquareRoots
import PallasVesta.Proofs.Subtraction
import PallasVesta.Proofs.Symmetries
import PallasVesta.Proofs.TangentLaw
import PallasVesta.Proofs.TraceLines
import PallasVesta.Proofs.TracedCalls
import PallasVesta.Proofs.WrittenTexts
import PallasVesta.Proofs.WrittenValues
