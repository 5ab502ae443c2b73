/-!
Capital and small forms, exact as far as ASCII letters come out of them. Words that are
compared with ASCII words after a change of case need no more.
-/

set_option autoImplicit false

namespace PartialUpdate.Text

/-- The capital form of a character. Outside ASCII only the characters are listed whose
capital form consists of ASCII letters. -/
def capital (c : Char) : List Char :=
  match c with
  | 'ß' => ['S', 'S']
  | 'ı' => ['I']
  | 'ſ' => ['S']
  | 'ﬀ' => ['F', 'F']
  | 'ﬁ' => ['F', 'I']
  | 'ﬂ' => ['F', 'L']
  | 'ﬃ' => ['F', 'F', 'I']
  | 'ﬄ' => ['F', 'F', 'L']
  | 'ﬅ' => ['S', 'T']
  | 'ﬆ' => ['S', 'T']
  | other => [other.toUpper]

def capitals (cs : List Char) : List Char := cs.flatMap capital

/-- The small form of a character. Outside ASCII only the sign is listed whose small form is
an ASCII letter. -/
def small (c : Char) : Char :=
  match c with
  | '\u212a' => 'k'
  | other => other.toLower

end PartialUpdate.Text
