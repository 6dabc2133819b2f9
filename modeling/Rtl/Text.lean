namespace Rtl.Text

-- A line from its characters, the last one first. A carriage return at the end
-- is no part of it.
def endLine : List Char → List Char
  | '\r' :: begun => begun.reverse
  | begun => begun.reverse

-- The lines of a text of whose first line some characters are read already,
-- given with the last one first. Each line ends at a line feed. What follows
-- the last line feed is a line as it stands, if it is not empty.
def splitLines (begun : List Char) : List Char → List (List Char)
  | [] => if begun.isEmpty then [] else [begun.reverse]
  | '\n' :: rest => endLine begun :: splitLines [] rest
  | c :: rest => splitLines (c :: begun) rest

def lines (text : String) : List String := (splitLines [] text.toList).map String.ofList

-- The text with every occurrence of a character written as another text.
def escape (write : Char → List Char) (text : String) : String :=
  String.ofList (text.toList.flatMap write)

theorem toList_toLower (text : String) : text.toLower.toList = text.toList.map Char.toLower :=
  String.toList_map ..

theorem toLower_append (a b : String) : (a ++ b).toLower = a.toLower ++ b.toLower := by
  apply String.toList_injective
  simp only [toList_toLower, String.toList_append, List.map_append]

-- Characters other than line feeds all go into the line that is begun.
theorem splitLines_append {line : List Char} (h : '\n' ∉ line) (begun rest : List Char) :
    splitLines begun (line ++ rest) = splitLines (line.reverse ++ begun) rest := by
  induction line generalizing begun with
  | nil => rfl
  | cons c line ih =>
      simp only [List.mem_cons, not_or] at h
      rw [List.cons_append, splitLines, ih h.2, List.reverse_cons, List.append_assoc]
      · rfl
      · exact fun hc => h.1 hc.symm

end Rtl.Text
