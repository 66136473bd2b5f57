/-!
# `ForumModeration.Text.Quoted`: strings between quotes

A string is written between single quotes. A single quote, a backslash, a line
feed and a tab are written with a backslash. The reader takes a string between
quotes of either kind and also reads an escaped double quote. A backslash in
front of any other character stands for itself.

* `readBody_encode`: a written string reads back, and what follows it is left.
-/

set_option autoImplicit false

namespace ForumModeration.Text.Quoted

/-- How a character is written between single quotes. -/
def encodeChar : Char → List Char
  | '\'' => ['\\', '\'']
  | '\\' => ['\\', '\\']
  | '\n' => ['\\', 'n']
  | '\t' => ['\\', 't']
  | c => [c]

/-- A text between single quotes. -/
def encode (text : List Char) : List Char :=
  '\'' :: text.flatMap encodeChar ++ ['\'']

/-- What a backslash and the character after it stand for. -/
def decodeEscape : Char → List Char
  | 'n' => ['\n']
  | 't' => ['\t']
  | '\'' => ['\'']
  | '"' => ['"']
  | '\\' => ['\\']
  | c => ['\\', c]

/-- Reads up to the quote that closes the string. The result is the string and
the text after that quote. There is none if the string is never closed. -/
def readBody (mark : Char) : List Char → Option (List Char × List Char)
  | [] => none
  | [c] => if c = mark then some ([], []) else none
  | c :: d :: rest =>
    if c = mark then some ([], d :: rest)
    else if c = '\\' then
      (readBody mark rest).map fun (text, after) => (decodeEscape d ++ text, after)
    else
      (readBody mark (d :: rest)).map fun (text, after) => (c :: text, after)

private theorem readBody_mark (mark : Char) (rest : List Char) :
    readBody mark (mark :: rest) = some ([], rest) := by
  cases rest <;> simp [readBody]

private theorem readBody_escape {mark : Char} (h : mark ≠ '\\') (c : Char) (rest : List Char) :
    readBody mark ('\\' :: c :: rest)
      = (readBody mark rest).map fun (text, after) => (decodeEscape c ++ text, after) := by
  simp [readBody, Ne.symm h]

private theorem readBody_plain {mark c : Char} (hm : c ≠ mark) (hb : c ≠ '\\')
    {rest : List Char} (hr : rest ≠ []) :
    readBody mark (c :: rest)
      = (readBody mark rest).map fun (text, after) => (c :: text, after) := by
  cases rest with
  | nil => exact absurd rfl hr
  | cons d rest => simp [readBody, hm, hb]

/-- The body of a written string, followed by anything, reads back. -/
theorem readBody_encode (text rest : List Char) :
    readBody '\'' (text.flatMap encodeChar ++ '\'' :: rest) = some (text, rest) := by
  induction text with
  | nil => exact readBody_mark '\'' rest
  | cons c text ih =>
    rw [List.flatMap_cons, List.append_assoc]
    by_cases hq : c = '\''
    · subst hq
      simp [encodeChar, readBody_escape, ih, decodeEscape]
    by_cases hb : c = '\\'
    · subst hb
      simp [encodeChar, readBody_escape, ih, decodeEscape]
    by_cases hn : c = '\n'
    · subst hn
      simp [encodeChar, readBody_escape, ih, decodeEscape]
    by_cases ht : c = '\t'
    · subst ht
      simp [encodeChar, readBody_escape, ih, decodeEscape]
    have plain : encodeChar c = [c] := by
      simp [encodeChar]
    rw [plain, List.singleton_append, readBody_plain hq hb (by simp), ih]
    rfl

end ForumModeration.Text.Quoted
