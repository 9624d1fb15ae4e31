import ColdArchive.FileArchive
import ColdArchive.Memory

/-!
An archive of either kind, beside the disk that one in files is on.
-/

namespace ColdArchive

/-- An archive in memory or in files. -/
inductive Hosted where
  | memory (m : Memory)
  | files (a : FileArchive)

namespace Hosted

/-- The archive of a directory, or an empty one in memory if there is no directory. -/
def openAt : Option String → DiskM Hosted
  | some directory => do return files (← FileArchive.openAt directory)
  | none => return memory .empty

/-- Lets go of what the archive holds of the disk. -/
def release : Hosted → Disk → Disk
  | memory _, d => d
  | files a, d => (a.release d).2

instance : Engine (Hosted × Disk) where
  perform
    | (memory m, d), now, ctx, call =>
      let (outcome, m) := Archive.perform m now ctx call
      (outcome, memory m, d)
    | (files a, d), now, ctx, call =>
      let (outcome, a, d) := Archive.perform (a, d) now ctx call
      (outcome, files a, d)
  repair
    | (memory m, d) =>
      let (report, m) := Engine.repair m
      (report, memory m, d)
    | (files a, d) =>
      let (report, a, d) := Engine.repair (a, d)
      (report, files a, d)

end Hosted

end ColdArchive
