import Tdps.Lib.Machine
import Tdps.Lib.Ring
import Tdps.Lib.Rounding
import Tdps.Lib.Streak
import Tdps.Lib.Bubble
import Tdps.Lib.Loop
import Tdps.Lib.InOrder
import Tdps.Lib.Fair
import Tdps.Lib.Serial
import Tdps.Lib.Line
import Tdps.Lib.Alarm
import Tdps.Commu
import Tdps.SendSp
import Tdps.Motor
import Tdps.Board
import Tdps.MotorLink
import Tdps.Serial
import Tdps.Receive
import Tdps.Infrared
import Tdps.Boot
import Tdps.Encoder
import Tdps.Sr04
import Tdps.PID
import Tdps.Steering
import Tdps.Course
import Tdps.Gate
import Tdps.GateController
import Tdps.Rover
import Tdps.TracingPlusColor
import Tdps.Timer
import Tdps.Kernel
import Tdps.Proofs.LinkProofs
import Tdps.Proofs.DamagedStreamProofs
import Tdps.Proofs.SaturationProofs
import Tdps.Proofs.MotorLinkProofs
import Tdps.Proofs.MotorRaceProofs
import Tdps.Proofs.DutyCycleProofs
import Tdps.Proofs.ReceiveProofs
import Tdps.Proofs.InfraredProofs
import Tdps.Proofs.BootProofs
import Tdps.Proofs.EncoderProofs
import Tdps.Proofs.SamplingProofs
import Tdps.Proofs.PIDProofs
import Tdps.Proofs.FilterProofs
import Tdps.Proofs.CourseProofs
import Tdps.Proofs.SeedProofs
import Tdps.Proofs.SteeringProofs
import Tdps.Proofs.TrafficLightProofs
import Tdps.Proofs.DistanceProofs
import Tdps.Proofs.PedestrianProofs
import Tdps.Proofs.CourseOrderProofs
import Tdps.Proofs.GateProofs
import Tdps.Proofs.GateControllerProofs
import Tdps.Proofs.CrossingProofs
import Tdps.Proofs.CrossingCountProofs
import Tdps.Proofs.ActuationProofs
import Tdps.Proofs.StandstillProofs
import Tdps.Proofs.GoCodeProofs
import Tdps.Proofs.PassageProofs
import Tdps.Proofs.LostAcknowledgementProofs
import Tdps.Proofs.TimerProofs
import Tdps.Proofs.ReadyQueueProofs
import Tdps.Proofs.SchedulerProofs
import Tdps.Proofs.KernelProofs
import Tdps.Proofs.PreemptionProofs
import Tdps.Proofs.WaitingProofs
import Tdps.Proofs.SemaphoreProofs
import Tdps.Proofs.OneTakerProofs
import Tdps.Proofs.SleepProofs
import Tdps.Proofs.BubbleSortProofs
import Tdps.Proofs.MiddleLineProofs
import Tdps.Proofs.ColumnSumProofs
