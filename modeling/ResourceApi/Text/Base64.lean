/-!
# Octets written in sixty-four letters

Each letter stands for six bits; four letters give three octets. Characters that are no letters do
not count, except that an equals sign after the second letter of a group, or two of them, end the
text. What is left of an unfinished group at the end is an error.
-/

namespace ResourceApi.Text

/-- The value of a letter. -/
def letterValue? (c : Char) : Option Nat :=
  if 'A' ≤ c ∧ c ≤ 'Z' then some (c.toNat - 'A'.toNat)
  else if 'a' ≤ c ∧ c ≤ 'z' then some (c.toNat - 'a'.toNat + 26)
  else if '0' ≤ c ∧ c ≤ '9' then some (c.toNat - '0'.toNat + 52)
  else if c = '+' then some 62
  else if c = '/' then some 63
  else none

/-- Reads on in a group: how many letters of it were read, the bits left over from the last one,
how many equals signs came after it, and the octets found, in reverse. -/
def octetsFrom (position left signs : Nat) (found : List Nat) : List Char → Option (List Nat)
  | [] => if position = 0 then some found.reverse else none
  | c :: cs =>
    if c = '=' then
      if position < 2 then octetsFrom position left signs found cs
      else if 4 ≤ position + (signs + 1) then some found.reverse
      else octetsFrom position left (signs + 1) found cs
    else
      match letterValue? c with
      | none => octetsFrom position left signs found cs
      | some v =>
        match position with
        | 0 => octetsFrom 1 v 0 found cs
        | 1 => octetsFrom 2 (v % 16) 0 ((left * 4 + v / 16) :: found) cs
        | 2 => octetsFrom 3 (v % 4) 0 ((left * 16 + v / 4) :: found) cs
        | _ => octetsFrom 0 0 0 ((left * 64 + v) :: found) cs

/-- The octets that an ASCII text stands for. -/
def octets? (cs : List Char) : Option (List Nat) :=
  if cs.all (·.toNat < 128) then octetsFrom 0 0 0 [] cs else none

end ResourceApi.Text
