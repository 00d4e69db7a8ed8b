/-!
# Misfits

A misfit is a value of a shape that no rule foresees, or a place on disk that is not what it
should be. Nothing is reported about it but its kind.
-/

namespace ResourceApi

/-- What does not fit the use that is made of it. -/
inductive Misfit where
  /-- A map was needed. -/
  | notMap
  /-- A list or something like one was needed. -/
  | notSequence
  /-- A pair was needed, and the sequence has another length. -/
  | notPair
  /-- A value that cannot be a key stands as one. -/
  | notKey
  /-- A member has a key that is no text. -/
  | keyNotText
  /-- A text was needed. -/
  | notText
  /-- A text that should form a number forms none. -/
  | notNumber
  /-- A text that should form a number is empty. -/
  | emptyNumber
  /-- A whole number is beyond the greatest floating-point number. -/
  | numberTooLarge
  /-- A whole number has more digits than are written out. -/
  | numberTooLong
  /-- A word that should be a truth value is none. -/
  | notTruth
  /-- A text that should name a moment names none. -/
  | notMoment
  /-- A text that should name a moment has another form. -/
  | malformedMoment
  /-- A code beyond the last character. -/
  | notCharacter
  /-- A code too large to be one at all. -/
  | codeTooLarge
  /-- A value is reached from itself where an end is needed. -/
  | endless
  /-- Lists and maps stand too deep inside each other. -/
  | tooDeep
  /-- A value holds itself and cannot be written out. -/
  | cyclic
  /-- A text holds half of a pair of code units and cannot be encoded. -/
  | notEncodable
  /-- The name of a file holds a character that no name may hold. -/
  | notName
  /-- The name of a file is longer than a name may be. -/
  | nameTooLong
  /-- The place of a file is taken by a directory. -/
  | isDirectory
  /-- The place of a directory is taken by a file. -/
  | isFile
  /-- A directory on the way to a file is a file. -/
  | notDirectory
  deriving DecidableEq, Repr, Inhabited

end ResourceApi
