import LicenseFormula.Formula.Text
import LicenseFormula.Reading

/-!
# Sessions

A session reads formulas from one text, one after the other, and writes formulas with the
renaming that has been registered with it.  The renaming may have effects, in any monad.

* `Session.ofCursor source c` a session that reads `source` from `c` on;
* `Session.read s`            the next reading, and the session behind it;
* `Session.register r s`      the session with the renaming `r`;
* `Session.normalize s f`     the line of `f`, renamed;
* `Session.describe s`        how a session is shown.
-/

namespace LicenseFormula

/-- a text being read, with a renaming -/
structure Session (m : Type → Type) where
  source : String
  cursor : Cursor
  rename? : Option (String → m String)

namespace Session

variable {m : Type → Type}

/-- a session without renaming -/
def ofCursor (source : String) (c : Cursor) : Session m := ⟨source, c, none⟩

/-- the next reading, and the session behind it -/
def read (s : Session m) : Reading × Session m :=
  let r := Reading.ofCursor s.cursor
  (r, { s with cursor := r.stop })

/-- the session with a renaming in place of the one before -/
def register (rename : String → m String) (s : Session m) : Session m :=
  { s with rename? := some rename }

/-- the line of a formula, renamed if a renaming is registered -/
def normalize [Monad m] (s : Session m) (f : Formula) : m String :=
  f.writeM (s.rename?.getD pure)

def describe (s : Session m) : String :=
  "Parser \x7b tokenizer: Tokenizer \x7b input: " ++ Text.quoted s.source ++ ", pos: "
    ++ toString s.cursor.offset ++ " \x7d, normalize_fn: " ++ toString s.rename?.isSome ++ " \x7d"

end Session

end LicenseFormula
