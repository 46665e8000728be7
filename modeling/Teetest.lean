import Teetest.Commands.Frames
import Teetest.Commands.Lines
import Teetest.Commands.Receiver
import Teetest.Commands.Remote
import Teetest.Console.Ending
import Teetest.Console.Handles
import Teetest.Console.Order
import Teetest.Console.Progress
import Teetest.Console.Ranges
import Teetest.Console.Typing
import Teetest.Events.Queue
import Teetest.Events.Timers
import Teetest.Imu.Boot
import Teetest.Imu.Samples
import Teetest.Imu.SelfTest
import Teetest.Lib.Sampling
import Teetest.Log.Consistent
import Teetest.Log.Counting
import Teetest.Log.Names
import Teetest.Log.Numbers
import Teetest.Log.Sizes
import Teetest.Log.Stream
import Teetest.Motors.Encoder
import Teetest.Motors.Pid
import Teetest.Motors.Pins
import Teetest.Motors.Process
import Teetest.Motors.Ramp
import Teetest.Motors.Speed
import Teetest.Motors.Wheels
import Teetest.Robot.Balance
import Teetest.Robot.Battery
import Teetest.Robot.Calibration
import Teetest.Robot.Dialogue
import Teetest.Robot.Leaving
import Teetest.Robot.Restart
import Teetest.Robot.Schedule
import Teetest.Robot.Tilt
import Teetest.Session.Connection
import Teetest.Session.Demux
import Teetest.Session.Framing
import Teetest.Session.Keepalive
import Teetest.Session.Ring
import Teetest.Session.Sharing
import Teetest.Session.Start
import Teetest.Src.Encoder
import Teetest.Src.ImuSetup
import Teetest.Src.IrReceiver
import Teetest.Transfer.Blocks
import Teetest.Transfer.Failures
import Teetest.Transfer.Format
import Teetest.Transfer.Stall
