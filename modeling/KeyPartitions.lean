import KeyPartitions.Main
import KeyPartitions.Outline
import KeyPartitions.Table.Cursor
import KeyPartitions.Table.Operation
import KeyPartitions.Proofs.AssignmentRefinement
import KeyPartitions.Proofs.CapacityLaw
import KeyPartitions.Proofs.HashIndependence
import KeyPartitions.Proofs.MapRefinement
import KeyPartitions.Proofs.RoundTrip
import KeyPartitions.Proofs.CatchingUp
import KeyPartitions.Proofs.Splitting
import KeyPartitions.Proofs.GeneratedFile
import KeyPartitions.Proofs.Interleaving
import KeyPartitions.Proofs.BackingOff
import KeyPartitions.Proofs.Recovery
import KeyPartitions.Proofs.Arrangements
import KeyPartitions.Proofs.TornFile
import KeyPartitions.Proofs.CursorWalk
import KeyPartitions.Proofs.Diagnosis
import KeyPartitions.Proofs.Ledger
import KeyPartitions.Proofs.Custody
import KeyPartitions.Proofs.FreshStart
import KeyPartitions.Proofs.ArrivalOrder
import KeyPartitions.Proofs.Handles
import KeyPartitions.Proofs.Mixing
import KeyPartitions.Proofs.Residues
