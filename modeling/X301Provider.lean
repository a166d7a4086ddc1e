import X301Provider.BigInt.FieldBackend
import X301Provider.BigInt.MontyInversion
import X301Provider.BigInt.ScalarBackend
import X301Provider.Edwards.BatchNormalize
import X301Provider.Edwards.ConstTwins
import X301Provider.Edwards.DigitSelection
import X301Provider.Edwards.ScalarMulAgreement
import X301Provider.Field.FieldElement
import X301Provider.Field.FoldLoops
import X301Provider.Field.WideProducts
import X301Provider.Field.WindowLoops
import X301Provider.Hybrid.RoundTrip
import X301Provider.Provider.CoreVersion
import X301Provider.Provider.DrbgInvariant
import X301Provider.Provider.ExchangeLineage
import X301Provider.Provider.KeyQueries
import X301Provider.Provider.Lifecycle
import X301Provider.Shake.KeccakSpec
import X301Provider.Shake.Shake
import X301Provider.Signature.NonceReuse
import X301Provider.Signature.Signing
import X301Provider.Signature.SubgroupCheck
import X301Provider.Signature.Wnaf
import X301Provider.X301.CanonicalForm
import X301Provider.X301.GroupAgreement
import X301Provider.X301.LadderRound
import X301Provider.X301.LazyBounds
import X301Provider.X301.PublicKeyCollisions
