import Countersign.Proofs.Disk.Replace

/-! Files that do not come into being. Whatever is made beside a path or above it, where nothing
stood at the path nothing stands there afterwards. -/

namespace Countersign

open FileStep (besidePath)

namespace Disk

variable {disk other third : Disk} {path more : String}

/-- A change that leaves a file alone, and makes none where there is none. -/
structure Retains (disk other : Disk) (path : String) : Prop extends
    disk.LeavesAlone other path where
  stays : disk.IsVacant path → other.IsVacant path

theorem Retains.refl (h : disk.Houses path) : disk.Retains disk path := ⟨.refl h, id⟩

theorem Retains.trans (h : disk.Retains other path) (h' : other.Retains third path) :
    disk.Retains third path := ⟨h.toLeavesAlone.trans h'.toLeavesAlone, fun hv => h'.stays (h.stays hv)⟩

end Disk

namespace FileStep

variable {disk : Disk} {path : String}

end FileStep
end Countersign
