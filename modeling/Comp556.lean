import Comp556.Ping.Bounds
import Comp556.Ping.Closing
import Comp556.Routing.DvConverge
import Comp556.Routing.DvCost
import Comp556.Routing.DvExchange
import Comp556.Routing.DvFixpoint
import Comp556.Routing.DvTimeout
import Comp556.Routing.DvTriggered
import Comp556.Routing.LsCoherence
import Comp556.Routing.LsDuplicates
import Comp556.Routing.LsFlooding
import Comp556.Routing.LsForwarding
import Comp556.Routing.LsGraph
import Comp556.Routing.Neighbors
import Comp556.Routing.Overflow
import Comp556.Routing.PacketBounds
import Comp556.Simulator.ConfigRoundTrip
import Comp556.Simulator.DvForwarding
import Comp556.Simulator.Routers
import Comp556.Transfer.Acks
import Comp556.Transfer.Corrupt
import Comp556.Transfer.Delivery
import Comp556.Transfer.Ending
import Comp556.Transfer.Paths
