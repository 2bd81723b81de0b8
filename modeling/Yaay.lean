import Yaay.Net.EventSafety
import Yaay.Net.Reading
import Yaay.Net.Reclaim
import Yaay.Net.RoundRobin
import Yaay.Net.TcpStream
import Yaay.Net.WakeEconomy
import Yaay.Runtime.Assertions
import Yaay.Runtime.Batch
import Yaay.Runtime.Draining
import Yaay.Runtime.EpochChange
import Yaay.Runtime.LateWakes
import Yaay.Runtime.LemmaB
import Yaay.Runtime.Linearizable
import Yaay.Runtime.LostWakes
import Yaay.Runtime.NoStarvation
import Yaay.Runtime.PanickingPoll
import Yaay.Runtime.QueueOrder
import Yaay.Runtime.ShutdownReach
import Yaay.Runtime.ShutdownSteals
import Yaay.Runtime.StartupEnds
import Yaay.Runtime.StatusWord
import Yaay.Runtime.TaskLifetime
import Yaay.Runtime.Teardown
import Yaay.Runtime.WakeDelivery
import Yaay.Process.Return
