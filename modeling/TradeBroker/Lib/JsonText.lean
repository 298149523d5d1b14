/-
# TradeBroker.Lib.JsonText — `json.loads`, one code point at a time.

The reader is a pushdown machine: a mode that says what may come next, and a stack with one frame for each
array or object that waits for a value.  A number has no last character of its own, so the character behind
it is read twice: it ends the number and then stands as a delimiter.

A text is refused in one of three ways.  `JSONDecodeError` is what the decoder raises itself.  An integer
literal of more than 4300 digits is a plain `ValueError` of the integer constructor, and it is raised when
the literal ends, before the reader looks at what follows.  A document that nests too deeply is a
`RecursionError`; how deep that is depends on the interpreter and on the frames below the call, and is a
parameter.

What is accepted is well formed: `loads_distinct`, no object of the document has two members of one name.

What the reader accepts beyond the grammar is what Python accepts: `NaN`, `Infinity` and `-Infinity`, any
text in a name, and two members of one name, of which the last one wins and keeps the place of the first.

The machine is structural in the text, so the kernel runs it: a run over a concrete file is an evaluation.
`Lib.JsonDump` is the writer that faces it, and the round trip of the two is proved there.
-/
import TradeBroker.Lib.Python

namespace TradeBroker.Lib

/-- The class of what `json.loads` raises; the source catches some of these classes and lets others through,
and the texts of the messages play no part. -/
inductive LoadsError where
  | jsonDecodeError
  | valueError
  | recursionError
  deriving DecidableEq

namespace JsonText

def isDigit (c : CodePoint) : Bool := decide (48 ≤ c.val) && decide (c.val ≤ 57)

/-- The value of a decimal digit. -/
def digit (c : CodePoint) : Nat := c.val - 48

def isSpace (c : CodePoint) : Bool := decide (c.val ∈ [0x20, 0x09, 0x0A, 0x0D])

/-! ## Numbers -/

/-- `sys.get_int_max_str_digits()`, as the interpreter starts: longer integer literals are not converted. -/
def maxStrDigits : Nat := 4300

/-- What has been read of a number: sign, integer part, fraction, exponent.  The digits are counted as
characters, since leading zeros of a fraction are places and the digit limit is on characters. -/
structure Numeral where
  negative : Bool
  digits : Nat := 0
  mantissa : Nat := 0
  places : Nat := 0
  expNegative : Bool := false
  exponent : Nat := 0

/-- The place in a number, named for what has just been read. -/
inductive Part where
  | minus
  | zero
  | int
  | point
  | frac
  | exp
  | expSign
  | expDigits
  deriving DecidableEq

/-- Where a character leads inside a number; `none` when it is not part of it, and then it ends the number or
stands where a number cannot end. -/
def Part.next (part : Part) (c : CodePoint) : Option Part :=
  let dot := c = codePoint '.'
  let e := c = codePoint 'e' ∨ c = codePoint 'E'
  let sign := c = codePoint '-' ∨ c = codePoint '+'
  match part with
  | .minus => if c = codePoint '0' then some .zero else if isDigit c then some .int else none
  | .zero => if dot then some .point else if e then some .exp else none
  | .int => if isDigit c then some .int else if dot then some .point else if e then some .exp else none
  | .point => if isDigit c then some .frac else none
  | .frac => if isDigit c then some .frac else if e then some .exp else none
  | .exp => if sign then some .expSign else if isDigit c then some .expDigits else none
  | .expSign => if isDigit c then some .expDigits else none
  | .expDigits => if isDigit c then some .expDigits else none

namespace Numeral

/-- The numeral with the character that led to `part`. -/
def push (n : Numeral) (part : Part) (c : CodePoint) : Numeral :=
  match part with
  | .zero => { n with digits := n.digits + 1, mantissa := 10 * n.mantissa + digit c }
  | .int => { n with digits := n.digits + 1, mantissa := 10 * n.mantissa + digit c }
  | .frac => { n with mantissa := 10 * n.mantissa + digit c, places := n.places + 1 }
  | .expSign => { n with expNegative := decide (c = codePoint '-') }
  | .expDigits => { n with exponent := 10 * n.exponent + digit c }
  | _ => n

/-- `int(literal)`, which a literal with more digits than the interpreter converts does not survive. -/
def toInt (n : Numeral) : Except LoadsError Json :=
  if maxStrDigits < n.digits then .error .valueError
  else .ok (.int (if n.negative then -(n.mantissa : Int) else n.mantissa))

/-- `float(literal)`: the double nearest to the decimal, the even one of two that are equally near.
`Float.ofScientific` rounds once, and it sees the whole mantissa, however many digits that has. -/
def toReal (n : Numeral) : Json :=
  let scale : Int := (if n.expNegative then -(n.exponent : Int) else n.exponent) - n.places
  let x := Float.ofScientific n.mantissa (decide (scale < 0)) scale.natAbs
  .real (if n.negative then -x else x)

/-- `9007199254740993` lies half-way between two doubles, and the last of 25 further digits decides. -/
example : Float.ofScientific 9007199254740993 false 0 = 9007199254740992 ∧
    Float.ofScientific 90071992547409930000000000000000000000001 true 25 = 9007199254740994 := by
  decide +kernel

/-- A point or an exponent without digits is not part of the number.  The number before it is still
converted; then what comes next is no delimiter. -/
def goBack (n : Numeral) : LoadsError :=
  if n.places = 0 ∧ maxStrDigits < n.digits then .valueError else .jsonDecodeError

/-- The number ends at `part`. -/
def read (n : Numeral) : Part → Except LoadsError Json
  | .minus => .error .jsonDecodeError
  | .zero => n.toInt
  | .int => n.toInt
  | .point => .error n.goBack
  | .frac => .ok n.toReal
  | .exp => .error n.goBack
  | .expSign => .error n.goBack
  | .expDigits => .ok n.toReal

end Numeral

/-! ## The machine -/

/-- A container that waits for a value: the items so far, last one first, or the members so far and the name
of the one that waits. -/
inductive Frame where
  | arr (items : List Json)
  | obj (fields : Dict Json) (key : PyStr)

/-- What a string is read for: it becomes a value, or it becomes the name of the member that is being read. -/
inductive Target where
  | value
  | key (fields : Dict Json)

/-- What may come next.  The modes are the places between two characters of a text, and every one of them says
which characters it takes. -/
inductive Mode where
  | value
  /-- Behind `[`. -/
  | firstItem
  /-- Behind an opening brace. -/
  | firstKey
  /-- Behind a comma in an object. -/
  | key (fields : Dict Json)
  | colon (fields : Dict Json) (key : PyStr)
  | afterItem (items : List Json)
  | afterMember (fields : Dict Json)
  | done (doc : Json)
  /-- The text so far, last character first; `high` when its last character is an ESCAPED high surrogate. -/
  | string (target : Target) (text : PyStr) (high : Bool)
  | escape (target : Target) (text : PyStr) (high : Bool)
  | unicode (target : Target) (text : PyStr) (high : Bool) (value left : Nat)
  /-- Inside a literal name: the letters that must come, and what it denotes. -/
  | literal (next : CodePoint) (rest : PyStr) (v : Json)
  | number (part : Part) (n : Numeral)

structure State where
  mode : Mode
  stack : List Frame

def emptyDict : Dict Json := ⟨[], List.nodup_nil⟩

/-- A value is complete: it goes to the container that waits for it, or it is the document when no container
does. -/
def complete (v : Json) : List Frame → State
  | [] => ⟨.done v, []⟩
  | .arr items :: rest => ⟨.afterItem (v :: items), rest⟩
  | .obj fields key :: rest => ⟨.afterMember (fields.set key v), rest⟩

/-- The first character of a value.  An array or object is entered only below the limit. -/
def startValue (limit : Nat) (stack : List Frame) (c : CodePoint) : Except LoadsError State :=
  if c = codePoint '"' then .ok ⟨.string .value [] false, stack⟩
  else if c = codePoint '[' then
    if stack.length < limit then .ok ⟨.firstItem, stack⟩ else .error .recursionError
  else if c = codePoint '\x7b' then
    if stack.length < limit then .ok ⟨.firstKey, stack⟩ else .error .recursionError
  else if c = codePoint 'n' then .ok ⟨.literal (codePoint 'u') "ll" .null, stack⟩
  else if c = codePoint 't' then .ok ⟨.literal (codePoint 'r') "ue" (.bool true), stack⟩
  else if c = codePoint 'f' then .ok ⟨.literal (codePoint 'a') "lse" (.bool false), stack⟩
  else if c = codePoint 'N' then .ok ⟨.literal (codePoint 'a') "N" (.real (0.0 / 0.0)), stack⟩
  else if c = codePoint 'I' then .ok ⟨.literal (codePoint 'n') "finity" (.real (1.0 / 0.0)), stack⟩
  else if c = codePoint '-' then .ok ⟨.number .minus ⟨true, 0, 0, 0, false, 0⟩, stack⟩
  else
    match Part.next .minus c with
    | some part => .ok ⟨.number part (Numeral.push ⟨false, 0, 0, 0, false, 0⟩ part c), stack⟩
    | none => .error .jsonDecodeError

/-- A character where a value has just been completed: white space, a comma, the bracket of the container that
is open, and nothing else. -/
def delimiter (st : State) (c : CodePoint) : Except LoadsError State :=
  if isSpace c then .ok st
  else
    match st.mode with
    | .afterItem items =>
        if c = codePoint ',' then .ok ⟨.value, .arr items :: st.stack⟩
        else if c = codePoint ']' then .ok (complete (.arr items.reverse) st.stack)
        else .error .jsonDecodeError
    | .afterMember fields =>
        if c = codePoint ',' then .ok ⟨.key fields, st.stack⟩
        else if c = codePoint '\x7d' then .ok (complete (.obj fields.entries) st.stack)
        else .error .jsonDecodeError
    | _ => .error .jsonDecodeError

/-- The closing quote: the text is a value, or a name that a colon has to follow. -/
def endString (stack : List Frame) (s : PyStr) : Target → State
  | .value => complete (.str s) stack
  | .key fields => ⟨.colon fields s, stack⟩

/-- The character of a one-letter escape. -/
def unescape (c : CodePoint) : Option CodePoint :=
  if c = codePoint '"' ∨ c = codePoint '\\' ∨ c = codePoint '/' then some c
  else if c = codePoint 'b' then some (chr 8)
  else if c = codePoint 'f' then some (chr 12)
  else if c = codePoint 'n' then some (chr 10)
  else if c = codePoint 'r' then some (chr 13)
  else if c = codePoint 't' then some (chr 9)
  else none

/-- The value of a hexadecimal digit. -/
def hexValue (c : CodePoint) : Option Nat :=
  if isDigit c then some (digit c)
  else if 97 ≤ c.val ∧ c.val ≤ 102 then some (c.val - 87)
  else if 65 ≤ c.val ∧ c.val ≤ 70 then some (c.val - 55)
  else none

/-- A `\u` escape of the unit `u`: a low surrogate right behind an escaped high one makes one character
with it. -/
def pushUnit (target : Target) (text : PyStr) (high : Bool) (u : Nat) : Mode :=
  let isLow := 0xDC00 ≤ u ∧ u ≤ 0xDFFF
  match text with
  | h :: text' =>
      if high ∧ isLow then
        .string target (chr (0x10000 + (h.val - 0xD800) * 0x400 + (u - 0xDC00)) :: text') false
      else .string target (chr u :: text) (decide (0xD800 ≤ u ∧ u ≤ 0xDBFF))
  | [] => .string target [chr u] (decide (0xD800 ≤ u ∧ u ≤ 0xDBFF))

/-- One character, in the mode the machine is in.  The machine never looks ahead; it hands a character on
where a number has just ended. -/
def step (limit : Nat) (st : State) (c : CodePoint) : Except LoadsError State :=
  match st.mode with
  | .value => if isSpace c then .ok st else startValue limit st.stack c
  | .firstItem =>
      if isSpace c then .ok st
      else if c = codePoint ']' then .ok (complete (.arr []) st.stack)
      else startValue limit (.arr [] :: st.stack) c
  | .firstKey =>
      if isSpace c then .ok st
      else if c = codePoint '\x7d' then .ok (complete (.obj []) st.stack)
      else if c = codePoint '"' then .ok ⟨.string (.key emptyDict) [] false, st.stack⟩
      else .error .jsonDecodeError
  | .key fields =>
      if isSpace c then .ok st
      else if c = codePoint '"' then .ok ⟨.string (.key fields) [] false, st.stack⟩
      else .error .jsonDecodeError
  | .colon fields key =>
      if isSpace c then .ok st
      else if c = codePoint ':' then .ok ⟨.value, .obj fields key :: st.stack⟩
      else .error .jsonDecodeError
  | .afterItem _ => delimiter st c
  | .afterMember _ => delimiter st c
  | .done _ => delimiter st c
  | .string target text high =>
      if c = codePoint '"' then .ok (endString st.stack text.reverse target)
      else if c = codePoint '\\' then .ok ⟨.escape target text high, st.stack⟩
      else if c.val < 0x20 then .error .jsonDecodeError
      else .ok ⟨.string target (c :: text) false, st.stack⟩
  | .escape target text high =>
      if c = codePoint 'u' then .ok ⟨.unicode target text high 0 3, st.stack⟩
      else
        match unescape c with
        | some x => .ok ⟨.string target (x :: text) false, st.stack⟩
        | none => .error .jsonDecodeError
  | .unicode target text high value left =>
      match hexValue c with
      | none => .error .jsonDecodeError
      | some d =>
          match left with
          | 0 => .ok ⟨pushUnit target text high (16 * value + d), st.stack⟩
          | left + 1 => .ok ⟨.unicode target text high (16 * value + d) left, st.stack⟩
  | .literal next rest v =>
      if c = next then
        match rest with
        | [] => .ok (complete v st.stack)
        | r :: rs => .ok ⟨.literal r rs v, st.stack⟩
      else .error .jsonDecodeError
  | .number part n =>
      match part.next c with
      | some part' => .ok ⟨.number part' (n.push part' c), st.stack⟩
      | none =>
          if part = .minus ∧ c = codePoint 'I' then
            .ok ⟨.literal (codePoint 'n') "finity" (.real (-(1.0 / 0.0))), st.stack⟩
          else do
            let v ← n.read part
            delimiter (complete v st.stack) c

/-- The end of the text: a number may end here, a document may be over here, and in every other place the text
is not complete. -/
def finish (st : State) : Except LoadsError Json :=
  match st.mode with
  | .done doc => .ok doc
  | .number part n => do
      let v ← n.read part
      match (complete v st.stack).mode with
      | .done doc => pure doc
      | _ => throw .jsonDecodeError
  | _ => .error .jsonDecodeError

/-- Read on from a state. -/
def run (limit : Nat) : State → PyStr → Except LoadsError Json
  | st, [] => finish st
  | st, c :: cs =>
      match step limit st c with
      | .ok st' => run limit st' cs
      | .error e => .error e

end JsonText

/-- `json.loads(text)`, where at most `limit` containers may be open at once.  How many that are is not fixed
by the language. -/
def loads (limit : Nat) (text : PyStr) : Except LoadsError Json := JsonText.run limit ⟨.value, []⟩ text

example : loads 3 "[[[]]] " = .ok (.arr [.arr [.arr []]]) := rfl

example : loads 2 "[[[]]] " = .error .recursionError := rfl

/-! ## What is accepted is well formed -/

/-- No object has two members of one name, at any depth: the invariant of what the reader returns, since a
repeated name overwrites. -/
inductive Json.Distinct : Json → Prop
  | null : Distinct .null
  | bool (b : Bool) : Distinct (.bool b)
  | int (n : Int) : Distinct (.int n)
  | real (x : Float) : Distinct (.real x)
  | str (s : PyStr) : Distinct (.str s)
  | arr {items : List Json} : (∀ v ∈ items, Distinct v) → Distinct (.arr items)
  | obj {fields : List (PyStr × Json)} :
      (fields.map Prod.fst).Nodup → (∀ f ∈ fields, Distinct f.2) → Distinct (.obj fields)

namespace JsonText

/-- The members of an object under construction; their names are distinct by the type. -/
def Members (fields : Dict Json) : Prop := ∀ f ∈ fields.entries, f.2.Distinct

def Frame.Distinct : Frame → Prop
  | .arr items => ∀ v ∈ items, v.Distinct
  | .obj fields _ => Members fields

def Target.Distinct : Target → Prop
  | .value => True
  | .key fields => Members fields

def Mode.Distinct : Mode → Prop
  | .value => True
  | .firstItem => True
  | .firstKey => True
  | .key fields => Members fields
  | .colon fields _ => Members fields
  | .afterItem items => ∀ v ∈ items, v.Distinct
  | .afterMember fields => Members fields
  | .done doc => doc.Distinct
  | .string target _ _ => target.Distinct
  | .escape target _ _ => target.Distinct
  | .unicode target _ _ _ _ => target.Distinct
  | .literal _ _ v => v.Distinct
  | .number _ _ => True

/-- Whatever the machine holds is well formed, the finished values and those under construction. -/
structure State.Distinct (st : State) : Prop where
  mode : st.mode.Distinct
  stack : ∀ f ∈ st.stack, f.Distinct

theorem members_emptyDict : Members emptyDict := by
  intro f hf
  cases hf

theorem members_set {fields : Dict Json} {v : Json} (h : Members fields) (hv : v.Distinct) (key : PyStr) :
    Members (fields.set key v) := by
  intro f hf
  have key_mem : (fields.set key v).get? f.1 = some f.2 := Dict.get?_eq_some.mpr hf
  by_cases hk : key = f.1
  · rw [← hk, Dict.get?_set_self] at key_mem
    exact Option.some.inj key_mem ▸ hv
  · rw [Dict.get?_set_ne v hk] at key_mem
    exact h f (Dict.get?_eq_some.mp key_mem)

theorem distinct_obj {fields : Dict Json} (h : Members fields) : (Json.obj fields.entries).Distinct :=
  .obj fields.nodup h

theorem complete_distinct {v : Json} (hv : v.Distinct) {stack : List Frame} (h : ∀ f ∈ stack, f.Distinct) :
    (complete v stack).Distinct := by
  cases stack with
  | nil => exact ⟨hv, fun f hf => by cases hf⟩
  | cons top rest =>
      have hrest : ∀ f ∈ rest, f.Distinct := fun f hf => h f (List.mem_cons_of_mem top hf)
      have htop : top.Distinct := h top (List.mem_cons_self ..)
      cases top with
      | arr items =>
          refine ⟨?_, hrest⟩
          intro x hx
          rcases List.mem_cons.mp hx with rfl | hx
          · exact hv
          · exact htop x hx
      | obj fields key => exact ⟨members_set htop hv key, hrest⟩

theorem read_distinct {n : Numeral} {part : Part} {v : Json} (h : n.read part = .ok v) : v.Distinct := by
  have int : n.toInt = .ok v → v.Distinct := by
    intro hv
    unfold Numeral.toInt at hv
    split at hv
    · cases hv
    · cases hv
      exact .int _
  cases part with
  | zero => exact int h
  | int => exact int h
  | frac =>
      cases h
      exact .real _
  | expDigits =>
      cases h
      exact .real _
  | _ => cases h

/-- Another container waits for a value. -/
theorem push_distinct {f : Frame} {stack : List Frame} (hf : f.Distinct) (hs : ∀ f ∈ stack, f.Distinct) :
    ∀ g ∈ f :: stack, g.Distinct := by
  intro g hg
  rcases List.mem_cons.mp hg with rfl | hg
  · exact hf
  · exact hs g hg

/-- Where a step goes on, it goes on well formed; a step that refuses the text has nothing to keep. -/
def Keeps (r : Except LoadsError State) : Prop := ∀ st, r = .ok st → st.Distinct

theorem Keeps.ok {st : State} (hm : st.mode.Distinct) (hs : ∀ f ∈ st.stack, f.Distinct) : Keeps (.ok st) := by
  intro st' h
  cases h
  exact ⟨hm, hs⟩

theorem Keeps.of_distinct {st : State} (h : st.Distinct) : Keeps (.ok st) := .ok h.mode h.stack

theorem Keeps.error (e : LoadsError) : Keeps (.error e) := by
  intro st h
  cases h

section Step

variable {limit : Nat} {st : State} {c : CodePoint} {stack : List Frame}

theorem startValue_keeps (hs : ∀ f ∈ stack, f.Distinct) : Keeps (startValue limit stack c) := by
  unfold startValue
  split_ifs
  · exact .ok trivial hs
  · exact .ok trivial hs
  · exact .error _
  · exact .ok trivial hs
  · exact .error _
  · exact .ok .null hs
  · exact .ok (.bool true) hs
  · exact .ok (.bool false) hs
  · exact .ok (.real _) hs
  · exact .ok (.real _) hs
  · exact .ok trivial hs
  · split
    · exact .ok trivial hs
    · exact .error _

theorem delimiter_keeps (hs : st.Distinct) : Keeps (delimiter st c) := by
  obtain ⟨mode, stack⟩ := st
  unfold delimiter
  split
  · exact .of_distinct hs
  cases mode with
  | afterItem items =>
      dsimp only
      split_ifs
      · exact .ok trivial (push_distinct hs.mode hs.stack)
      · exact .of_distinct
          (complete_distinct (.arr fun v hv => hs.mode v (List.mem_reverse.mp hv)) hs.stack)
      · exact .error _
  | afterMember fields =>
      dsimp only
      split_ifs
      · exact .ok hs.mode hs.stack
      · exact .of_distinct (complete_distinct (distinct_obj hs.mode) hs.stack)
      · exact .error _
  | _ => exact .error _

theorem endString_distinct {target : Target} (s : PyStr) (ht : target.Distinct)
    (hs : ∀ f ∈ stack, f.Distinct) : (endString stack s target).Distinct := by
  cases target with
  | value => exact complete_distinct (.str s) hs
  | key fields => exact ⟨ht, hs⟩

theorem pushUnit_distinct {target : Target} {text : PyStr} {high : Bool} {u : Nat} (ht : target.Distinct) :
    (pushUnit target text high u).Distinct := by
  cases text with
  | nil => exact ht
  | cons h text =>
      dsimp only [pushUnit]
      split
      · exact ht
      · exact ht

/-- A number ends where `c` cannot go on with it, and `c` is read again as what follows. -/
theorem number_keeps {part : Part} {n : Numeral} (hs : ∀ f ∈ stack, f.Distinct) :
    Keeps (step limit ⟨.number part n, stack⟩ c) := by
  dsimp only [step]
  split
  · exact .ok trivial hs
  split
  · exact .ok (.real _) hs
  · cases hr : n.read part with
    | error e => exact .error e
    | ok v => exact delimiter_keeps (complete_distinct (read_distinct hr) hs)

/-- **One character** keeps the machine well formed, by cases on its mode. -/
theorem step_keeps (hs : st.Distinct) : Keeps (step limit st c) := by
  obtain ⟨mode, stack⟩ := st
  obtain ⟨hm, hf⟩ := hs
  cases mode with
  | value =>
      dsimp only [step]
      split
      · exact .ok trivial hf
      · exact startValue_keeps hf
  | firstItem =>
      dsimp only [step]
      split_ifs
      · exact .ok trivial hf
      · exact .of_distinct (complete_distinct (.arr (by simp)) hf)
      · exact startValue_keeps (push_distinct (fun v hv => by cases hv) hf)
  | firstKey =>
      dsimp only [step]
      split_ifs
      · exact .ok trivial hf
      · exact .of_distinct (complete_distinct (.obj (by simp) (by simp)) hf)
      · exact .ok members_emptyDict hf
      · exact .error _
  | key fields =>
      dsimp only [step]
      split_ifs
      · exact .ok hm hf
      · exact .ok hm hf
      · exact .error _
  | colon fields key =>
      dsimp only [step]
      split_ifs
      · exact .ok hm hf
      · exact .ok trivial (push_distinct hm hf)
      · exact .error _
  | afterItem items => exact delimiter_keeps ⟨hm, hf⟩
  | afterMember fields => exact delimiter_keeps ⟨hm, hf⟩
  | done doc => exact delimiter_keeps ⟨hm, hf⟩
  | string target text high =>
      dsimp only [step]
      split_ifs
      · exact .of_distinct (endString_distinct _ hm hf)
      · exact .ok hm hf
      · exact .error _
      · exact .ok hm hf
  | escape target text high =>
      dsimp only [step]
      split
      · exact .ok hm hf
      · split
        · exact .ok hm hf
        · exact .error _
  | unicode target text high value left =>
      dsimp only [step]
      split
      · exact .error _
      · cases left with
        | zero => exact .ok (pushUnit_distinct hm) hf
        | succ left => exact .ok hm hf
  | literal next rest v =>
      dsimp only [step]
      split
      · cases rest with
        | nil => exact .of_distinct (complete_distinct hm hf)
        | cons r rs => exact .ok hm hf
      · exact .error _
  | number part n => exact number_keeps hf

theorem finish_distinct {doc : Json} (h : finish st = .ok doc) (hs : st.Distinct) : doc.Distinct := by
  obtain ⟨mode, stack⟩ := st
  cases mode with
  | done v =>
      obtain rfl : v = doc := Except.ok.inj h
      exact hs.mode
  | number part n =>
      dsimp only [finish] at h
      cases hr : n.read part with
      | error e =>
          rw [hr] at h
          cases h
      | ok v =>
          have hv := (complete_distinct (read_distinct hr) hs.stack).mode
          simp only [hr, bind, Except.bind] at h
          split at h
          · rename_i doc' hmode
            obtain rfl : doc' = doc := Except.ok.inj h
            rw [hmode] at hv
            exact hv
          · cases h
  | _ => cases h

end Step

/-- The whole text, by induction on what is left of it. -/
theorem run_distinct {limit : Nat} {st : State} {text : PyStr} {doc : Json} (h : run limit st text = .ok doc)
    (hs : st.Distinct) : doc.Distinct := by
  induction text generalizing st with
  | nil => exact finish_distinct h hs
  | cons c cs ih =>
      rw [run] at h
      split at h
      · rename_i st' hstep
        exact ih h (step_keeps hs _ hstep)
      · cases h

end JsonText

/-- **What `json.loads` returns is well formed.** -/
theorem loads_distinct {limit : Nat} {text : PyStr} {doc : Json} (h : loads limit text = .ok doc) :
    doc.Distinct :=
  JsonText.run_distinct h ⟨trivial, fun f hf => by cases hf⟩

end TradeBroker.Lib
