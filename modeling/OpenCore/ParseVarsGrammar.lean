import OpenCore.ParseVarsTurns

/-!
The grammar of variable texts, on characters alone. A text is a sequence of names, each
with or without a value, or of tokens that are values; blanks and comments stand between
them. A value is a concatenation of unquoted, single-quoted and double-quoted pieces. One
that holds a shell expansion is not known to the parser and counts as missing.
-/

namespace OpenCore.ParseVarsGrammar

open ParseVars ParseVarsTurns

section Values

def listed (ch : Nat) : Bool :=
  ch == doubleQuote || ch == backslash || ch == dollar || ch == backquote

structure Letter where
  code : Nat
  kept : Bool
  deriving DecidableEq

def letter (code : Nat) : Letter := ⟨code, false⟩

/-- What is read as a value: its letters, those of its shell expansions among them, and
whether a backquote is an ordinary character of a single-quoted piece. -/
structure Reading where
  letters : List Letter
  expanded : Bool
  hidden : Bool
  deriving DecidableEq

def Reading.empty : Reading := ⟨[], false, false⟩

def Reading.cons (first : Letter) (reading : Reading) : Reading :=
  { reading with letters := first :: reading.letters }

def Reading.consQuoted (ch : Nat) (reading : Reading) : Reading :=
  { reading.cons (letter ch) with hidden := ch == backquote || reading.hidden }

def Reading.consExpansion (shell : List Nat) (reading : Reading) : Reading :=
  { reading with
    letters := (backquote :: shell ++ [backquote]).map letter ++ reading.letters
    expanded := true }

def ordinary (quoting : Quoting) (ch : Nat) : Bool :=
  ch != doubleQuote && ch != backslash && ch != backquote &&
    (quoting == .double || ch != singleQuote && !ocIsSpace ch)

inductive Value : Quoting → List Nat → Reading → List Nat → Prop
  | ends (rest : List Nat) (delimited : ∀ ch ∈ rest.head?, ocIsSpace ch) :
      Value .unquoted rest .empty rest
  | opens {quoting : Quoting} {text rest : List Nat} {reading : Reading}
      (quoted : quoting ≠ .unquoted) (inside : Value quoting text reading rest) :
      Value .unquoted (quoting.char :: text) reading rest
  | closes {quoting : Quoting} {text rest : List Nat} {reading : Reading}
      (quoted : quoting ≠ .unquoted) (outside : Value .unquoted text reading rest) :
      Value quoting (quoting.char :: text) reading rest
  | quotes {ch : Nat} {text rest : List Nat} {reading : Reading}
      (inside : ch ≠ singleQuote) (behind : Value .single text reading rest) :
      Value .single (ch :: text) (reading.consQuoted ch) rest
  | escapes {quoting : Quoting} {ch : Nat} {text rest : List Nat} {reading : Reading}
      (literal : quoting = .unquoted ∨ quoting = .double ∧ listed ch)
      (behind : Value quoting text reading rest) :
      Value quoting (backslash :: ch :: text) (reading.cons (letter ch)) rest
  | keeps {ch : Nat} {text rest : List Nat} {reading : Reading}
      (unlisted : listed ch = false) (behind : Value .double text reading rest) :
      Value .double (backslash :: ch :: text)
        ((reading.cons (letter ch)).cons ⟨backslash, true⟩) rest
  | expands {quoting : Quoting} {shell text rest : List Nat} {reading : Reading}
      (plain : quoting ≠ .single) (within : ∀ ch ∈ shell, ch ≠ backquote)
      (behind : Value quoting text reading rest) :
      Value quoting (backquote :: shell ++ backquote :: text) (reading.consExpansion shell) rest
  | plain {quoting : Quoting} {ch : Nat} {text rest : List Nat} {reading : Reading}
      (unsingle : quoting ≠ .single) (stands : ordinary quoting ch)
      (behind : Value quoting text reading rest) :
      Value quoting (ch :: text) (reading.cons (letter ch)) rest

def Reading.stripped (reading : Reading) : List Nat :=
  (reading.letters.filter fun letter => !letter.kept).map Letter.code

def Reading.chars (reading : Reading) : List Nat := reading.letters.map Letter.code

end Values

section Texts

/-- A name begins with any character that begins no comment, and ends before a blank, an
equals sign or the end of the text. -/
def isName : List Nat → Bool
  | [] => false
  | ch :: chars =>
    ch != hash && !ocIsSpace ch && chars.all fun ch => ch != equalsSign && !ocIsSpace ch

inductive Delimited : List Nat → List Nat → Prop
  | atEnd : Delimited [] []
  | atBlank {ch : Nat} {rest : List Nat} (blank : ocIsSpace ch) : Delimited (ch :: rest) rest

structure Variable where
  name : Option (List Nat)
  reading : Option Reading

inductive Reads (tokensOnly : Bool) : List Nat → List Variable → Bool → Prop
  | nil : Reads tokensOnly [] [] false
  | blank {ch : Nat} {text : List Nat} {vars : List Variable} {inComment : Bool}
      (isBlank : ocIsSpace ch) (behind : Reads tokensOnly text vars inComment) :
      Reads tokensOnly (ch :: text) vars inComment
  | comment {line text : List Nat} {vars : List Variable} {inComment : Bool}
      (within : ∀ ch ∈ line, ch ≠ lineFeed) (behind : Reads tokensOnly text vars inComment) :
      Reads tokensOnly (hash :: line ++ lineFeed :: text) vars inComment
  | lastComment {line : List Nat} (within : ∀ ch ∈ line, ch ≠ lineFeed) :
      Reads tokensOnly (hash :: line) [] true
  | token {ch : Nat} {text rest next : List Nat} {reading : Reading} {vars : List Variable}
      {inComment : Bool} (only : tokensOnly = true) (begins : ch ≠ hash ∧ ocIsSpace ch = false)
      (value : Value .unquoted (ch :: text) reading rest) (delimited : Delimited rest next)
      (behind : Reads tokensOnly next vars inComment) :
      Reads tokensOnly (ch :: text) (⟨none, some reading⟩ :: vars) inComment
  | name {name rest next : List Nat} {vars : List Variable} {inComment : Bool}
      (named : tokensOnly = false) (valid : isName name) (delimited : Delimited rest next)
      (behind : Reads tokensOnly next vars inComment) :
      Reads tokensOnly (name ++ rest) (⟨some name, none⟩ :: vars) inComment
  | missing {name rest next : List Nat} {vars : List Variable} {inComment : Bool}
      (named : tokensOnly = false) (valid : isName name) (delimited : Delimited rest next)
      (behind : Reads tokensOnly next vars inComment) :
      Reads tokensOnly (name ++ equalsSign :: rest) (⟨some name, none⟩ :: vars) inComment
  | assigned {name text rest next : List Nat} {ch : Nat} {reading : Reading}
      {vars : List Variable} {inComment : Bool}
      (named : tokensOnly = false) (valid : isName name) (present : ocIsSpace ch = false)
      (value : Value .unquoted (ch :: text) reading rest) (delimited : Delimited rest next)
      (behind : Reads tokensOnly next vars inComment) :
      Reads tokensOnly (name ++ equalsSign :: ch :: text) (⟨some name, some reading⟩ :: vars)
        inComment

structure Pair where
  name : Option (List Nat)
  value : Option (List Nat)
  deriving DecidableEq

def Variable.pair (var : Variable) : Pair where
  name := var.name
  value := (var.reading.filter fun reading => !reading.expanded).map Reading.chars

def Variable.strippedPair (var : Variable) : Pair where
  name := var.name
  value := (var.reading.filter fun reading => !reading.expanded).map Reading.stripped

def Variable.keeps (var : Variable) : Bool :=
  (var.reading.filter fun reading => !reading.expanded).any fun reading =>
    reading.letters.any Letter.kept

def Variable.hides (var : Variable) : Bool := var.reading.any Reading.hidden

end Texts

section Results

inductive Shown (format : StringFormat) (memory : AddressSpace.Memory) :
    Option Nat → Option (List Nat) → Prop
  | missing : Shown format memory none none
  | present {address : Nat} {chars : List Nat} (stored : Stored format memory address chars) :
      Shown format memory (some address) (some chars)

structure ShownPair (format : StringFormat) (memory : AddressSpace.Memory) (var : ParsedVar)
    (pair : Pair) : Prop where
  name : Shown format memory var.name pair.name
  value : Shown format memory var.value pair.value

/-- What a call returns for a sequence of pairs; without one, the text is invalid. -/
def Shows (format : StringFormat) (outcome : Outcome) : Option (List Pair) → Prop
  | none => outcome.status = .invalidParameter
  | some [] => outcome.status = .notFound
  | some pairs =>
    outcome.status = .success ∧
      List.Forall₂ (ShownPair format outcome.memory) outcome.parsedVars pairs

def Yields (format : StringFormat) (tokensOnly : Bool) (memory : AddressSpace.Memory)
    (address : Nat) (pairs : Option (List Pair)) : Prop :=
  ∃ fuel outcome,
    ocParseVars fuel ⟨true, fun _ => true⟩ memory (some address) format tokensOnly = some outcome ∧
      Shows format outcome pairs

end Results

end OpenCore.ParseVarsGrammar
