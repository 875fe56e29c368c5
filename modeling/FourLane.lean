import FourLane.Register.Text
import FourLane.Instruction.Mnemonic
import FourLane.Machine
import FourLane.Proofs.Binary32.Integers
import FourLane.Proofs.Binary32.Neighbours
import FourLane.Proofs.Binary32.Sign
import FourLane.Proofs.Binary32.Text
import FourLane.Proofs.Dialect.Joined
import FourLane.Proofs.Machine.Lanes
import FourLane.Proofs.Machine.Log
import FourLane.Proofs.Machine.Origins
import FourLane.Proofs.Machine.Switches
import FourLane.Proofs.Messages
import FourLane.Proofs.Register.Arithmetic
import FourLane.Proofs.Register.Clamping
import FourLane.Proofs.Register.Comparisons
import FourLane.Proofs.Register.ConversionEvents
import FourLane.Proofs.Register.Conversions
import FourLane.Proofs.Register.DotProducts
import FourLane.Proofs.Register.Encodings
import FourLane.Proofs.Register.MaskTrees
import FourLane.Proofs.Register.MinMax
import FourLane.Proofs.Register.Monotone
import FourLane.Proofs.Register.PatternOrder
import FourLane.Proofs.Register.Residues
import FourLane.Proofs.Register.Rewrites
import FourLane.Proofs.Register.Roots
import FourLane.Proofs.Register.RoundTrips
import FourLane.Proofs.Register.Switches
import FourLane.Proofs.Register.Symmetries
import FourLane.Proofs.Register.Unfused
import FourLane.Proofs.Saturation
