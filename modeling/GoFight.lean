import GoFight.Data.Mirror
import GoFight.Data.NetConfig
import GoFight.Data.OwnReply
import GoFight.Data.RedisList
import GoFight.Data.RedisStore
import GoFight.Data.RowMappers
import GoFight.Net.Accept
import GoFight.Net.ConnCounter
import GoFight.Net.CreateConn
import GoFight.Net.Deletion
import GoFight.Net.Delivery
import GoFight.Net.HandOver
import GoFight.Net.InitBarrier
import GoFight.Net.Outbound
import GoFight.Net.Progress
import GoFight.Net.Readiness
import GoFight.Net.RoundRobin
import GoFight.Net.Startup
import GoFight.Net.Sweep
import GoFight.Link.Fidelity
import GoFight.Link.Handshake
import GoFight.Link.Isolation
import GoFight.Link.NodeCustody
import GoFight.Link.Passage
import GoFight.Link.Registration
import GoFight.Link.ServerProgram
import GoFight.Link.Upstream
import GoFight.Link.Wire
import GoFight.Protocol.WireMessages
import GoFight.Script.LuaScript
import GoFight.Tools.RegenerateAll
