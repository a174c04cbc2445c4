/-!
# UTF-8 — bytes as characters

A byte, or the longest start of a character, that does not go on to make up a character stands
for the replacement character.
-/

namespace Abacus.Text

/-- What stands for bytes that are no character. -/
def replacement : Char := '\uFFFD'

/-- For the first byte of a character of several bytes, the least and the greatest byte that can
come next, and how many bytes follow in all. -/
def followersOf (first : UInt8) : Option (UInt8 × UInt8 × Nat) :=
  if first < 0xC2 then none
  else if first < 0xE0 then some (0x80, 0xBF, 1)
  else if first = 0xE0 then some (0xA0, 0xBF, 2)
  else if first = 0xED then some (0x80, 0x9F, 2)
  else if first < 0xF0 then some (0x80, 0xBF, 2)
  else if first = 0xF0 then some (0x90, 0xBF, 3)
  else if first < 0xF4 then some (0x80, 0xBF, 3)
  else if first = 0xF4 then some (0x80, 0x8F, 3)
  else none

/-- At most `count` bytes that go on with a character, the first of them within two bounds. -/
def followers (least greatest : UInt8) : Nat → List UInt8 → List UInt8
  | count + 1, byte :: rest =>
      if least ≤ byte && byte ≤ greatest then byte :: followers 0x80 0xBF count rest else []
  | _, _ => []

/-- The character with the given first byte and followers. -/
def joined (first : UInt8) (rest : List UInt8) : Char :=
  Char.ofNat (rest.foldl (fun n byte => n * 64 + byte.toNat % 64)
    (first.toNat % 1 <<< (6 - rest.length)))

/-- The characters of some bytes. -/
def decodeUtf8 : List UInt8 → List Char
  | [] => []
  | first :: rest =>
      if first < 0x80 then Char.ofNat first.toNat :: decodeUtf8 rest
      else
        match followersOf first with
        | none => replacement :: decodeUtf8 rest
        | some (least, greatest, count) =>
            let found := followers least greatest count rest
            let c := if found.length = count then joined first found else replacement
            c :: decodeUtf8 (rest.drop found.length)
termination_by bytes => bytes.length
decreasing_by
  all_goals simp only [List.length_cons, List.length_drop]
  all_goals omega

end Abacus.Text
