import Bokkie.DeliveryInvariant
import Bokkie.EventLogNumbering
import Bokkie.Convergence
import Bokkie.BotConvergence
import Bokkie.CapabilityRuleLines
import Bokkie.CheckedTurns
import Bokkie.RevokedCredentials
import Bokkie.GuessingLimits
import Bokkie.HourApart
import Bokkie.DueRoutines
import Bokkie.StreamedText
import Bokkie.EnabledAdmins
import Bokkie.AccountConvergence
import Bokkie.RpcOutcomes
import Bokkie.PublicFetching
import Bokkie.SeenItemsKept
import Bokkie.PushPayload
import Bokkie.OneSocket
import Bokkie.TokenTotals
import Bokkie.FetchLimits
import Bokkie.WebAnswer
import Bokkie.OwnSubscription
import Bokkie.RunCopies
import Bokkie.GrantSwitches
import Bokkie.Drafts
import Bokkie.OversightEnds
import Bokkie.MarkupSoundness
import Bokkie.RestartedLimiter
import Bokkie.RpcEncoding
import Bokkie.Presence
import Bokkie.PushesOnce
import Bokkie.ConversationTurns
import Bokkie.QuietCalls
import Bokkie.TurnLimits
