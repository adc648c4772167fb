import ReducedMips.Files.Tree
import ReducedMips.Machine.Guarded
import ReducedMips.Main
import ReducedMips.Proofs.Answers
import ReducedMips.Proofs.Assembled
import ReducedMips.Proofs.Assembly.SameLine
import ReducedMips.Proofs.Assembly.Supported
import ReducedMips.Proofs.BitRange
import ReducedMips.Proofs.Bounds
import ReducedMips.Proofs.Budget
import ReducedMips.Proofs.Canonical
import ReducedMips.Proofs.Coherence
import ReducedMips.Proofs.CommandLine.Merging
import ReducedMips.Proofs.CommandLine.Refusal
import ReducedMips.Proofs.CommandLine.Run
import ReducedMips.Proofs.Cycle
import ReducedMips.Proofs.Enlarged
import ReducedMips.Proofs.Files.Save
import ReducedMips.Proofs.Forward
import ReducedMips.Proofs.Image.Dump
import ReducedMips.Proofs.Image.Regrouped
import ReducedMips.Proofs.LastWrite
import ReducedMips.Proofs.LifeCycle
import ReducedMips.Proofs.Listing.Reader
import ReducedMips.Proofs.Placement
import ReducedMips.Proofs.Reach
import ReducedMips.Proofs.Realignment
import ReducedMips.Proofs.Renaming
import ReducedMips.Proofs.RunLog
import ReducedMips.Proofs.Settings.Choice
import ReducedMips.Proofs.Snapshot.Faithful
import ReducedMips.Proofs.StopReason
import ReducedMips.Proofs.Trace
import ReducedMips.Proofs.WriteSet
