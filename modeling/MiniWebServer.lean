import MiniWebServer.Buffer.Fifo
import MiniWebServer.Client.Suite
import MiniWebServer.EventLoop.Leaving
import MiniWebServer.HttpProcess.Bodies
import MiniWebServer.HttpProcess.Limits
import MiniWebServer.Library.Fairness
import MiniWebServer.Process
import MiniWebServer.Server.Joins
import MiniWebServer.Server.Returning
import MiniWebServer.Server.Routing
import MiniWebServer.Server.Shutdown
import MiniWebServer.SubReactor.Death
import MiniWebServer.SubReactor.Delivery
import MiniWebServer.SubReactor.Loop
import MiniWebServer.SubReactor.Order
import MiniWebServer.SubReactor.Punctual
import MiniWebServer.SubReactor.Readiness
import MiniWebServer.SubReactor.References
import MiniWebServer.SubReactor.Requests
import MiniWebServer.SubReactor.Rounds
import MiniWebServer.SubReactor.Shutdown
import MiniWebServer.SubReactor.Writing
import MiniWebServer.TimerQueue.Wrap
