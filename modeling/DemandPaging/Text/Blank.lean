/-!
Blank characters, by the Unicode property White_Space, and the cuts made at them.
-/

namespace DemandPaging.Text

/-- The characters with the property White_Space. -/
def isBlank (c : Char) : Bool :=
  let n := c.toNat
  (9 ≤ n && n ≤ 13) || n == 32 || n == 0x85 || n == 0xA0 || n == 0x1680 ||
    (0x2000 ≤ n && n ≤ 0x200A) || n == 0x2028 || n == 0x2029 || n == 0x202F ||
    n == 0x205F || n == 0x3000

def trimStart (cs : List Char) : List Char := cs.dropWhile isBlank

def trimEnd (cs : List Char) : List Char := (cs.reverse.dropWhile isBlank).reverse

def trimChars (cs : List Char) : List Char := trimEnd (trimStart cs)

def trim (s : String) : String := String.ofList (trimChars s.toList)

/-- Cuts at the first blank, which belongs to neither part. -/
def cutAtBlank (cs : List Char) : List Char × Option (List Char) :=
  match cs.dropWhile fun c => !isBlank c with
  | [] => (cs, none)
  | _ :: rest => (cs.takeWhile fun c => !isBlank c, some rest)

private def consWord (c : Char) : List (List Char) → List (List Char)
  | [] => if isBlank c then [[]] else [[c]]
  | w :: ws => if isBlank c then [] :: w :: ws else (c :: w) :: ws

/-- The maximal runs of characters that are not blank. -/
def words (s : String) : List String :=
  ((s.toList.foldr consWord [[]]).filter fun w => !w.isEmpty).map String.ofList

theorem trimStart_cons_of_not_isBlank {c : Char} (h : isBlank c = false) (cs : List Char) :
    trimStart (c :: cs) = c :: cs := by
  simp [trimStart, h]

end DemandPaging.Text
