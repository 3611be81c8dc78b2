import Sexpect.Guarantees.WireFormat
import Sexpect.Guarantees.Framing
import Sexpect.Guarantees.Receive
import Sexpect.Guarantees.Windows
import Sexpect.Guarantees.ServerMoves
import Sexpect.Guarantees.ServerTalk
import Sexpect.Guarantees.ExpectAssertion
import Sexpect.Guarantees.ExpectWindow
import Sexpect.Guarantees.ChildFlag
import Sexpect.Guarantees.Delivery
import Sexpect.Guarantees.Conversation
import Sexpect.Guarantees.CommandSessions
import Sexpect.Guarantees.DetachSessions
import Sexpect.Guarantees.Pending
import Sexpect.Guarantees.ReadOnlyGet
import Sexpect.Lib.Ere
import Sexpect.Source.Glob
import Sexpect.Guarantees.GlobMeaning
import Sexpect.Guarantees.Decoding
import Sexpect.Guarantees.Reencoding
import Sexpect.Source.Args
import Sexpect.Guarantees.QuotedBuffer
import Sexpect.Guarantees.Substitution
import Sexpect.Guarantees.Lookback
import Sexpect.Guarantees.Captures
import Sexpect.Guarantees.EncodedSize
import Sexpect.Guarantees.UnsentReply
import Sexpect.Guarantees.LostReplies
import Sexpect.Guarantees.CloseOnExit
import Sexpect.Guarantees.PartialTrees
import Sexpect.Guarantees.NonblockRoom
import Sexpect.Guarantees.CommandLine
import Sexpect.Guarantees.RequestsArrive
import Sexpect.Guarantees.SendPayload
import Sexpect.Guarantees.ReplaceParts
import Sexpect.Guarantees.SubstTable
import Sexpect.Lib.Access
import Sexpect.Source.Cursor
import Sexpect.Guarantees.TranslatorBounds
import Sexpect.Lib.Separation
import Sexpect.Source.Nodes
import Sexpect.Guarantees.NodeTrees
import Sexpect.Guarantees.DecodeMemory
import Sexpect.Guarantees.MessageMemory
import Sexpect.Guarantees.RequestEffects
import Sexpect.Guarantees.TypedInput
import Sexpect.Guarantees.ShownOutput
import Sexpect.Guarantees.MessageSizes
import Sexpect.Guarantees.WiredSession
import Sexpect.Guarantees.ServerSays
import Sexpect.Source.Wire
import Sexpect.Source.Answers
import Sexpect.Guarantees.CommandAnswers
import Sexpect.Guarantees.GetOutput
import Sexpect.Guarantees.CommandOutcomes
import Sexpect.Guarantees.ServerLives
import Sexpect.Lib.Rounding
import Sexpect.Source.Clock
import Sexpect.Guarantees.Clocks
import Sexpect.Guarantees.Rounds
import Sexpect.Guarantees.TimeLimits
import Sexpect.Guarantees.Retirement
import Sexpect.Guarantees.OptionTables
