import SpikingNeuralP.Main
import SpikingNeuralP.Simulation.Request
import SpikingNeuralP.Proofs.Step.Walk
import SpikingNeuralP.Proofs.Step.Countdown
import SpikingNeuralP.Proofs.Simulation.SnapshotMachine
import SpikingNeuralP.Proofs.Simulation.Retracing
import SpikingNeuralP.Proofs.Simulation.Reach
import SpikingNeuralP.Proofs.Simulation.Solvency
import SpikingNeuralP.Proofs.Simulation.Halting
import SpikingNeuralP.Proofs.Simulation.OutputTrains
import SpikingNeuralP.Proofs.Display.Lines
import SpikingNeuralP.Proofs.Display.Replay
import SpikingNeuralP.Proofs.Session.Boundary
import SpikingNeuralP.Proofs.Step.Influence
import SpikingNeuralP.Proofs.Network.Editing
import SpikingNeuralP.Proofs.Simulation.Shape
import SpikingNeuralP.Proofs.Simulation.Observation
import SpikingNeuralP.Proofs.Step.Refusal
import SpikingNeuralP.Proofs.Step.Tracking
import SpikingNeuralP.Proofs.Simulation.Overflow
import SpikingNeuralP.Proofs.Network.Matrix
import SpikingNeuralP.Proofs.Network.Removal
import SpikingNeuralP.Proofs.Network.Decisions
import SpikingNeuralP.Proofs.Step.Exactness
import SpikingNeuralP.Proofs.Step.Exchange
import SpikingNeuralP.Proofs.Network.Enabled
import SpikingNeuralP.Proofs.Neuron.Calls
import SpikingNeuralP.Proofs.Topology.Parts
