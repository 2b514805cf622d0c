import TwelveBit.Script
import TwelveBit.Peripheral
import TwelveBit.Command.Directory
import TwelveBit.Main
import TwelveBit.Proofs.Keeps
import TwelveBit.Proofs.StepParts
import TwelveBit.Proofs.Stability
import TwelveBit.Proofs.Operation
import TwelveBit.Proofs.MemoryChange
import TwelveBit.Proofs.WellFormed
import TwelveBit.Proofs.ProgramMemory
import TwelveBit.Proofs.Frames
import TwelveBit.Proofs.Delivery
import TwelveBit.Proofs.CallReturn
import TwelveBit.Proofs.Activation
import TwelveBit.Proofs.Mirror
import TwelveBit.Proofs.Chronicle
import TwelveBit.Proofs.LineHistory
import TwelveBit.Proofs.Conservation
import TwelveBit.Proofs.Runs
import TwelveBit.Proofs.Pausing
import TwelveBit.Proofs.Encoding
import TwelveBit.Proofs.ImageFormat
import TwelveBit.Proofs.StepOutcome
import TwelveBit.Proofs.Failures
import TwelveBit.Proofs.DecodingOutcome
import TwelveBit.Proofs.Traps
import TwelveBit.Proofs.ProgramCounter
import TwelveBit.Proofs.Reset
import TwelveBit.Proofs.Finishing
import TwelveBit.Proofs.Attestation
import TwelveBit.Proofs.Waiting
import TwelveBit.Proofs.Tally
import TwelveBit.Proofs.Closing
import TwelveBit.Proofs.Silence
import TwelveBit.Proofs.Accounting
import TwelveBit.Proofs.Crew
import TwelveBit.Proofs.Checked.Safety
import TwelveBit.Proofs.ExactArithmetic
import TwelveBit.Proofs.StackWords
import TwelveBit.Proofs.StackEffects
import TwelveBit.Proofs.Locals
import TwelveBit.Proofs.Rotation
import TwelveBit.Proofs.JumpConditions
import TwelveBit.Proofs.BlockCopy
import TwelveBit.Proofs.AddressingModes
import TwelveBit.Proofs.Regions
import TwelveBit.Proofs.ImageFlaws
import TwelveBit.Proofs.ImageLoading
import TwelveBit.Proofs.WordPairs
import TwelveBit.Proofs.Grammar
import TwelveBit.Proofs.MemoryFaults
import TwelveBit.Proofs.Ranking
import TwelveBit.Proofs.Pictures
import TwelveBit.Proofs.KeyForwarding
import TwelveBit.Proofs.Disassembly
import TwelveBit.Proofs.HaltedFlag
import TwelveBit.Proofs.EffectParts
import TwelveBit.Proofs.StackMark
