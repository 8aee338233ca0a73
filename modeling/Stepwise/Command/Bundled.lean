import Stepwise.Source.Basic

/-!
# The bundled program

A program that counts, with a variable left without a value on purpose.
-/

namespace Stepwise.Command

/-- The lines of the bundled program. -/
def bundledLines : List String :=
  ["make var iter;",
   "",
   "iter = 0;",
   "",
   "while iter < 100 \x7b",
   "    var output;",
   "    var fizz = \"\";",
   "    var buzz = \"\";",
   "",
   "    if iter % 3 == 0 \x7b",
   "        fizz = \"Fizz\";",
   "    \x7d",
   "    if iter % 5 == 0 \x7b",
   "        buzz = \"Buzz\";",
   "    \x7d",
   "",
   "    output = fizz + buzz;",
   "    if output != \"\" \x7b",
   "        print output;",
   "    \x7d else \x7b",
   "        print iter;",
   "    \x7d",
   "",
   "    if iter == 15 \x7b",
   "        var x;",
   "        x;",
   "    \x7d",
   "",
   "    iter = iter + 1;",
   "\x7d",
   ""]

/-- The bundled program. -/
def bundled : Source := ⟨"fizzbuzz.pel", "\n".intercalate bundledLines⟩

end Stepwise.Command
