import TkeyFido2.Lib.Bytes
import TkeyFido2.Lib.Prog
import TkeyFido2.Lib.Journal
import TkeyFido2.Lib.Ledger
import TkeyFido2.Lib.Der
import TkeyFido2.Lib.ByteFile
import TkeyFido2.Hid.Ctaphid
import TkeyFido2.Hid.Reassembly
import TkeyFido2.Cbor.Parser
import TkeyFido2.Cbor.Encoder
import TkeyFido2.Cbor.RoundTrip
import TkeyFido2.Cbor.Members
import TkeyFido2.Cbor.Output
import TkeyFido2.Ctap.Types
import TkeyFido2.Ctap.Crypto
import TkeyFido2.Lib.BlockSource
import TkeyFido2.Lib.Memory
import TkeyFido2.Ctap.Rng
import TkeyFido2.Lib.BlockHash
import TkeyFido2.Lib.Sha2
import TkeyFido2.Lib.Hmac
import TkeyFido2.Ctap.Sha256
import TkeyFido2.Ctap.Hkdf
import TkeyFido2.Ctap.StateFile
import TkeyFido2.Ctap.World
import TkeyFido2.Ctap.Device
import TkeyFido2.Ctap.Credential
import TkeyFido2.Ctap.DerSignature
import TkeyFido2.Ctap.Parse
import TkeyFido2.Ctap.UserNames
import TkeyFido2.Ctap.ClientPin
import TkeyFido2.Ctap.AuthData
import TkeyFido2.Ctap.GetAssertion
import TkeyFido2.Ctap.MakeCredential
import TkeyFido2.Ctap.CredentialManagement
import TkeyFido2.Ctap.Request
import TkeyFido2.Ctap.Footprint
import TkeyFido2.Ctap.Invariant
import TkeyFido2.Ctap.StateRoundTrip
import TkeyFido2.Ctap.Start
import TkeyFido2.Ctap.Simulator
import TkeyFido2.Ctap.Persistence
import TkeyFido2.Ctap.PinAttempts
import TkeyFido2.Ctap.Store
import TkeyFido2.Ctap.Filter
import TkeyFido2.Ctap.AssertionRequest
import TkeyFido2.Ctap.PowerCuts
import TkeyFido2.Ctap.PinCuts
import TkeyFido2.Ctap.StoreCuts
import TkeyFido2.Ctap.VersionGate
import TkeyFido2.Ctap.BootAttempts
import TkeyFido2.Ctap.Assertion
import TkeyFido2.Ctap.Apdu
import TkeyFido2.Ctap.AssertionMap
import TkeyFido2.Ctap.NextAssertion
import TkeyFido2.Ctap.StoreHistory
import TkeyFido2.Ctap.Token
import TkeyFido2.Ctap.RpBinding
import TkeyFido2.Ctap.TokenBinding
import TkeyFido2.Ctap.TokenTime
import TkeyFido2.Ctap.U2f
import TkeyFido2.Ctap.SigningKeys
import TkeyFido2.Ctap.U2fHandles
import TkeyFido2.Ctap.ResponseSize
import TkeyFido2.Ctap.HmacSecret
import TkeyFido2.Ctap.Enumeration
import TkeyFido2.Ctap.MakeCredentialStages
import TkeyFido2.Ctap.ExcludeList
import TkeyFido2.Ctap.ResponseRoom
import TkeyFido2.Ctap.IdChecks
import TkeyFido2.Ctap.RegistrationAtomic
import TkeyFido2.Ctap.AuthParams
import TkeyFido2.Ctap.ForwardCompat
import TkeyFido2.Fs.Littlefs
import TkeyFido2.Fs.ResidentKeys
import TkeyFido2.Fs.DeleteRk
import TkeyFido2.Fs.Handle
import TkeyFido2.Fs.Counter
import TkeyFido2.Lib.ShortWeierstrass
import TkeyFido2.Ctap.Curve
import TkeyFido2.Ctap.CredentialKeys
import TkeyFido2.Ctap.KeyAgreement
import TkeyFido2.Ctap.UserUpdates
import TkeyFido2.Hid.Handler
import TkeyFido2.Hid.Channels
import TkeyFido2.Hid.Invariants
import TkeyFido2.Hid.Pairing
import TkeyFido2.Hid.Replies
import TkeyFido2.Hid.Leftovers
import TkeyFido2.Hid.Reserved
import TkeyFido2.Hid.Allocation
import TkeyFido2.Hid.Fifo
import TkeyFido2.Hid.MainLoop
import TkeyFido2.Ctap.RpIdNames
import TkeyFido2.Hid.Attestation
import TkeyFido2.Lib.TwoRuns
import TkeyFido2.Ctap.Unread
import TkeyFido2.Ctap.ResetState
import TkeyFido2.Ctap.CredentialRoundTrip
import TkeyFido2.Lib.BlockModes
import TkeyFido2.Ctap.Aes
import TkeyFido2.Ctap.PinRoundTrip
import TkeyFido2.Ctap.StoredAssertions
import TkeyFido2.Lib.Segments
import TkeyFido2.Ctap.NewlibQsort
import TkeyFido2.Hid.Transaction
import TkeyFido2.Ecc.Vli
