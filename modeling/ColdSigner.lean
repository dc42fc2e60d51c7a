import ColdSigner.Account
import ColdSigner.Apdu.Basic
import ColdSigner.Apdu.Chunk
import ColdSigner.Apdu.Field
import ColdSigner.Apdu.Message
import ColdSigner.Apdu.Reassembly
import ColdSigner.Apdu.Status
import ColdSigner.Bytes
import ColdSigner.Bytes.Base58
import ColdSigner.Bytes.Hex
import ColdSigner.Compact
import ColdSigner.Compact.Reader
import ColdSigner.Crypto.Blake2b
import ColdSigner.Crypto.Ecdsa
import ColdSigner.Crypto.Hmac
import ColdSigner.Crypto.KeyTree
import ColdSigner.Crypto.Secp256k1
import ColdSigner.Crypto.Sha2
import ColdSigner.Device.Dispatch
import ColdSigner.Device.Engine
import ColdSigner.Device.Error
import ColdSigner.Device.Event
import ColdSigner.Device.Output
import ColdSigner.Device.SeedStore
import ColdSigner.Device.State
import ColdSigner.Display.Coin
import ColdSigner.Display.Time
import ColdSigner.Display.Value
import ColdSigner.Host.Dialogue
import ColdSigner.Host.Error
import ColdSigner.Host.Handle
import ColdSigner.Host.Signing
import ColdSigner.Lockup
import ColdSigner.Lockup.Address
import ColdSigner.Number.Decimal
import ColdSigner.Number.Digits
import ColdSigner.Number.Uint256
import ColdSigner.Path
import ColdSigner.Path.Text
import ColdSigner.Proofs.AccountSearch
import ColdSigner.Proofs.Addresses
import ColdSigner.Proofs.AlteredAnswers
import ColdSigner.Proofs.AnswerFrames
import ColdSigner.Proofs.BaseNumerals
import ColdSigner.Proofs.Calendar
import ColdSigner.Proofs.CallPlaces
import ColdSigner.Proofs.CanonicalTransactions
import ColdSigner.Proofs.CheckedIntegers
import ColdSigner.Proofs.ChunkSequences
import ColdSigner.Proofs.CoinAmounts
import ColdSigner.Proofs.CommandAnswers
import ColdSigner.Proofs.CompactIntegers
import ColdSigner.Proofs.ConfirmedAddresses
import ColdSigner.Proofs.DecimalWriting
import ColdSigner.Proofs.DisplayedValues
import ColdSigner.Proofs.EngineInvariant
import ColdSigner.Proofs.EnginePhases
import ColdSigner.Proofs.FreshRequests
import ColdSigner.Proofs.GregorianDates
import ColdSigner.Proofs.GroupSearch
import ColdSigner.Proofs.HonestExchanges
import ColdSigner.Proofs.HostAccounts
import ColdSigner.Proofs.HostRequests
import ColdSigner.Proofs.HostSignatures
import ColdSigner.Proofs.IndexedReading
import ColdSigner.Proofs.InputScreens
import ColdSigner.Proofs.IntegerForms
import ColdSigner.Proofs.Interruptions
import ColdSigner.Proofs.MessageForms
import ColdSigner.Proofs.MessageHistory
import ColdSigner.Proofs.MessageRoundTrips
import ColdSigner.Proofs.MessageTransfer
import ColdSigner.Proofs.MissingBytes
import ColdSigner.Proofs.OutputScreens
import ColdSigner.Proofs.PathSpellings
import ColdSigner.Proofs.PointsInTime
import ColdSigner.Proofs.ReadableScreens
import ColdSigner.Proofs.ReaderCalls
import ColdSigner.Proofs.Reading
import ColdSigner.Proofs.ReceivedMessages
import ColdSigner.Proofs.RefusedRequests
import ColdSigner.Proofs.RequestIntegrity
import ColdSigner.Proofs.RequestRelease
import ColdSigner.Proofs.RequestTransfer
import ColdSigner.Proofs.ReviewCompleteness
import ColdSigner.Proofs.ReviewOrder
import ColdSigner.Proofs.ScreenBuffers
import ColdSigner.Proofs.SharedDevice
import ColdSigner.Proofs.ShownMessages
import ColdSigner.Proofs.SignatureRelease
import ColdSigner.Proofs.SigningOutcome
import ColdSigner.Proofs.SigningRequests
import ColdSigner.Proofs.TokenTotals
import ColdSigner.Proofs.TransactionLoading
import ColdSigner.Proofs.TransactionParts
import ColdSigner.Proofs.Transcripts
import ColdSigner.Proofs.UserDecisions
import ColdSigner.Review.Reviewer
import ColdSigner.Review.Screen
import ColdSigner.Review.Walk
import ColdSigner.Session.InProcess
import ColdSigner.Session.Stream
import ColdSigner.Text.Blank
import ColdSigner.Text.Quoted
import ColdSigner.Text.Utf8
import ColdSigner.Transaction
import ColdSigner.Transaction.Decode
import ColdSigner.Transaction.Encode
import ColdSigner.Transaction.Error
