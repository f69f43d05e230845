import Brainfuck.HelloWorld
import Brainfuck.Main
import Brainfuck.Proofs.Cancellation
import Brainfuck.Proofs.Decoding
import Brainfuck.Proofs.Faultless
import Brainfuck.Proofs.Flattening
import Brainfuck.Proofs.Intake
import Brainfuck.Proofs.Interruption
import Brainfuck.Proofs.Unrolling
import Brainfuck.Proofs.EncodedText
import Brainfuck.Proofs.Log
import Brainfuck.Proofs.CommandLine
import Brainfuck.Proofs.Unreported
import Brainfuck.Proofs.Sequencing
import Brainfuck.Proofs.Stalling
import Brainfuck.Proofs.DeadLoops
import Brainfuck.Proofs.UnreadInput
import Brainfuck.Proofs.TapeHistory
import Brainfuck.Proofs.Nesting
import Brainfuck.Proofs.Advice
import Brainfuck.Proofs.Groups
import Brainfuck.Proofs.FrameStack
