/-
# TradeBroker.Lib.JsonDump — `json.dumps(doc, indent=2, sort_keys=True, ensure_ascii=False)`.

The writer that faces `Lib.JsonText`: the members of every object sorted by name, two spaces for each level,
one item a line, and of a text only the quote, the backslash and the control characters escaped.

`loads_dumps` is the round trip.  It asks of a document what the two functions ask of it: no float, whose
`repr` is a parameter; no integer of more than 4300 digits, which neither of the two converts; no two members
of one name; and no deeper nesting than the reader allows.  Texts are arbitrary, lone surrogates included, so
what is lost between a document and a file is decided by the encoding alone (`encodable_pretty`).

The proof goes value by value.  `ReadsBack` is the statement for one value in any place where a value may
stand: the reader, given the text of the value and then something that may follow a value, is where it
would be if the value had been handed to it complete.  `readsBack` proves it for every plain value by
induction on `Json.Plain`; the steps for a text, a number, the items of an array and the members of an
object are lemmas of their own, in the order in which the text has them.

Sorting is the one thing that does not come back.  A document is read back as `Json.sorted`, in which
every object has its members in the order of the file, so a caller that looks members up by name sees no
difference and one that walks through them does (`Journal.Bytes`).

The last part is about the text as a text: `encodable_pretty` says which documents the UTF-8 encoder
takes, and `Tidy` that the only control character of a dumped text is the new line, which `Lib.Utf8` needs
for universal newlines.
-/
import TradeBroker.Lib.JsonText
import TradeBroker.Lib.Utf8
import Mathlib.Data.List.Sort
import Mathlib.Data.Nat.Digits.Lemmas

namespace TradeBroker.Lib

/-! ## §1 — the writer. -/

/-- `a <= b` on texts: code point by code point, the shorter one first where one is the beginning of the
other. -/
def textLe : PyStr → PyStr → Bool
  | [], _ => true
  | _ :: _, [] => false
  | a :: as, b :: bs => decide (a.val < b.val) || (decide (a = b) && textLe as bs)

/-- `sorted(fields.items())`: the names differ, so the values are never compared. -/
def sortMembers (fields : List (PyStr × Json)) : List (PyStr × Json) :=
  fields.insertionSort fun f g => textLe f.1 g.1 = true

mutual

/-- The document with the members of every object in the order in which they are written, at every depth. -/
def Json.sorted : Json → Json
  | .arr items => .arr (Json.sortedItems items)
  | .obj fields => .obj (sortMembers (Json.sortedFields fields))
  | v => v

def Json.sortedItems : List Json → List Json
  | [] => []
  | v :: vs => v.sorted :: Json.sortedItems vs

def Json.sortedFields : List (PyStr × Json) → List (PyStr × Json)
  | [] => []
  | (k, v) :: fs => (k, v.sorted) :: Json.sortedFields fs

end

namespace JsonDump

/-- The decimal digits of a natural number, most significant first, and `0` for zero. -/
def decimal (n : Nat) : PyStr :=
  if n = 0 then [codePoint '0'] else (Nat.digits 10 n).reverse.map fun d => chr (48 + d)

/-- `int.__repr__(n)`: a sign where it is negative, and decimal digits. -/
def intRepr (n : Int) : PyStr := if n < 0 then codePoint '-' :: decimal n.natAbs else decimal n.natAbs

/-- The escape of one character, where it needs one: the two characters that would end or escape a text, the
five control characters with a letter of their own, and `\u00XX` for the other ones below the space. -/
def escape (c : CodePoint) : PyStr :=
  if c = codePoint '"' then [codePoint '\\', codePoint '"']
  else if c = codePoint '\\' then [codePoint '\\', codePoint '\\']
  else if c = codePoint '\n' then [codePoint '\\', codePoint 'n']
  else if c = codePoint '\r' then [codePoint '\\', codePoint 'r']
  else if c = codePoint '\t' then [codePoint '\\', codePoint 't']
  else if c = chr 12 then [codePoint '\\', codePoint 'f']
  else if c = chr 8 then [codePoint '\\', codePoint 'b']
  else if c.val < 32 then
    [codePoint '\\', codePoint 'u', codePoint '0', codePoint '0', codePoint (hexDigit (c.val / 16)),
      codePoint (hexDigit (c.val % 16))]
  else [c]

/-- `encode_basestring(s)`: with `ensure_ascii=False` every other character stands for itself, a lone
surrogate too. -/
def quote (s : PyStr) : PyStr := codePoint '"' :: (s.flatMap escape ++ [codePoint '"'])

/-- A new line at a level, indented by two blanks for each. -/
def newline (level : Nat) : PyStr := codePoint '\n' :: List.replicate (2 * level) (codePoint ' ')

end JsonDump

open JsonDump

section Pretty

variable (floatRepr : Float → PyStr)

mutual

/-- The text of a value that starts at a level, as `indent=2` lays it out. -/
def Json.pretty (level : Nat) : Json → PyStr
  | .null => "null"
  | .bool true => "true"
  | .bool false => "false"
  | .int n => intRepr n
  | .real x => floatRepr x
  | .str s => quote s
  | .arr [] => "[]"
  | .arr (v :: vs) =>
      codePoint '[' :: (newline (level + 1) ++ v.pretty (level + 1) ++ Json.prettyItems (level + 1) vs ++
        newline level ++ [codePoint ']'])
  | .obj [] => "\x7b\x7d"
  | .obj ((k, v) :: fs) =>
      codePoint '\x7b' :: (newline (level + 1) ++ quote k ++ ": " ++ v.pretty (level + 1) ++
        Json.prettyFields (level + 1) fs ++ newline level ++ [codePoint '\x7d'])

/-- The items behind the first one, each behind a comma on a line of its own. -/
def Json.prettyItems (level : Nat) : List Json → PyStr
  | [] => []
  | v :: vs => codePoint ',' :: (newline level ++ v.pretty level ++ Json.prettyItems level vs)

/-- The members behind the first one, each behind a comma on a line of its own. -/
def Json.prettyFields (level : Nat) : List (PyStr × Json) → PyStr
  | [] => []
  | (k, v) :: fs =>
      codePoint ',' :: (newline level ++ quote k ++ ": " ++ v.pretty level ++ Json.prettyFields level fs)

end

/-- `json.dumps(doc, indent=2, sort_keys=True, ensure_ascii=False)`, of a document whose integers
`int.__repr__` converts. -/
def dumps (doc : Json) : PyStr := doc.sorted.pretty floatRepr 0

end Pretty

example : dumps (fun _ => []) (.obj [("b", .arr []), ("a", .arr [.int (-10), .null])]) =
    "\x7b\n  \"a\": [\n    -10,\n    null\n  ],\n  \"b\": []\n\x7d" := by decide

/-! ## §2 — the reader on the writer's pieces.

Behind every value that is written stands a comma or a new line, so the number machine always gets the
character that ends a number. -/

/-- A document that both directions take, with at most `n` containers open at once.  It has no float, no
integer beyond the digit limit, and no two members of one name. -/
inductive Json.Plain : Nat → Json → Prop
  | null (n : Nat) : Plain n .null
  | bool (n : Nat) (b : Bool) : Plain n (.bool b)
  | int (n : Nat) {i : Int} : (decimal i.natAbs).length ≤ JsonText.maxStrDigits → Plain n (.int i)
  | str (n : Nat) (s : PyStr) : Plain n (.str s)
  | arr {n : Nat} {items : List Json} : (∀ v ∈ items, Plain n v) → Plain (n + 1) (.arr items)
  | obj {n : Nat} {fields : List (PyStr × Json)} :
      (fields.map Prod.fst).Nodup → (∀ f ∈ fields, Plain n f.2) → Plain (n + 1) (.obj fields)

namespace JsonText

/-- What stands behind a value in a text of this writer: a comma or a new line, and no number goes on with
either. -/
def Ends (rest : PyStr) : Prop := ∃ c cs, rest = c :: cs ∧ (c = codePoint ',' ∨ c = codePoint '\n')

theorem ends_newline (level : Nat) (rest : PyStr) : Ends (newline level ++ rest) := ⟨_, _, rfl, Or.inr rfl⟩

section Run

variable {limit : Nat} {stack : List Frame}

theorem run_ok {s t : State} {c : CodePoint} (h : step limit s c = .ok t) (rest : PyStr) :
    run limit s (c :: rest) = run limit t rest := by
  rw [run, h]

/-- White space changes nothing at this place, so indentation may be put there. -/
def Skips (limit : Nat) (st : State) : Prop := ∀ c, isSpace c = true → step limit st c = .ok st

theorem skips_delimiter {mode : Mode} (h : ∀ c, step limit ⟨mode, stack⟩ c = delimiter ⟨mode, stack⟩ c) :
    Skips limit ⟨mode, stack⟩ := by
  intro c hc
  rw [h, delimiter, if_pos hc]

theorem run_newline {st : State} (h : Skips limit st) (level : Nat) (rest : PyStr) :
    run limit st (newline level ++ rest) = run limit st rest := by
  have spaces : ∀ n, run limit st (List.replicate n (codePoint ' ') ++ rest) = run limit st rest := by
    intro n
    induction n with
    | zero => rfl
    | succ n ih =>
        rw [List.replicate_succ, List.cons_append, run_ok (h _ (by decide)), ih]
  rw [newline, List.cons_append, run_ok (h _ (by decide)), spaces]

/-- Where a value has been completed, the next character is a delimiter. -/
theorem step_complete (v : Json) (c : CodePoint) :
    step limit (complete v stack) c = delimiter (complete v stack) c := by
  cases stack with
  | nil => rfl
  | cons top rest => cases top <;> rfl

/-! ### Strings -/

theorem hexValue_hexDigit {d : Nat} (h : d < 16) : hexValue (codePoint (hexDigit d)) = some d := by
  interval_cases d <;> decide

/-- One character and its escape: the string machine reads the character back. -/
theorem run_escape (target : Target) (text : PyStr) (c : CodePoint) (rest : PyStr) :
    run limit ⟨.string target text false, stack⟩ (escape c ++ rest) =
      run limit ⟨.string target (c :: text) false, stack⟩ rest := by
  unfold escape
  split_ifs with h1 h2 h3 h4 h5 h6 h7 h8
  · rw [h1]
    rfl
  · rw [h2]
    rfl
  · rw [h3]
    rfl
  · rw [h4]
    rfl
  · rw [h5]
    rfl
  · rw [h6]
    rfl
  · rw [h7]
    rfl
  · -- four hexadecimal digits, the first two of them zero
    have hhigh := hexValue_hexDigit (d := c.val / 16) (by omega)
    have hlow := hexValue_hexDigit (d := c.val % 16) (by omega)
    have hu : 16 * (16 * (16 * (16 * 0 + 0) + 0) + c.val / 16) + c.val % 16 = c.val := by omega
    have hpush : pushUnit target text false c.val = .string target (c :: text) false := by
      have hsur : decide (0xD800 ≤ c.val ∧ c.val ≤ 0xDBFF) = false := decide_eq_false (by omega)
      cases text <;> simp [pushUnit, chr_val_eq, hsur]
    have hunit : ∀ value left d x, hexValue x = some d →
        step limit ⟨.unicode target text false value (left + 1), stack⟩ x =
          .ok ⟨.unicode target text false (16 * value + d) left, stack⟩ := by
      intro value left d x hx
      simp only [step, hx]
    have hlast : ∀ value d x, hexValue x = some d →
        step limit ⟨.unicode target text false value 0, stack⟩ x =
          .ok ⟨pushUnit target text false (16 * value + d), stack⟩ := by
      intro value d x hx
      simp only [step, hx]
    simp only [List.cons_append, List.nil_append]
    rw [run_ok (t := ⟨.escape target text false, stack⟩) rfl,
      run_ok (t := ⟨.unicode target text false 0 3, stack⟩) rfl,
      run_ok (hunit _ _ 0 _ (by decide)), run_ok (hunit _ _ 0 _ (by decide)), run_ok (hunit _ _ _ _ hhigh),
      run_ok (hlast _ _ _ hlow), hu, hpush]
  · have hc : step limit ⟨.string target text false, stack⟩ c = .ok ⟨.string target (c :: text) false, stack⟩ := by
      simp only [step, if_neg h1, if_neg h2, if_neg h8]
    exact run_ok hc rest

/-- A text, from behind its opening quote to its closing one. -/
theorem run_quoted (target : Target) (text s rest : PyStr) :
    run limit ⟨.string target text false, stack⟩ (s.flatMap escape ++ codePoint '"' :: rest) =
      run limit (endString stack (text.reverse ++ s) target) rest := by
  induction s generalizing text with
  | nil =>
      rw [List.append_nil]
      exact run_ok rfl rest
  | cons c s ih =>
      rw [List.flatMap_cons, List.append_assoc, run_escape, ih, List.reverse_cons, List.append_assoc]
      rfl

/-! ### Integers -/

/-- The number machine inside an integer that has begun. -/
theorem run_digits {ds : List Nat} (hds : ∀ d ∈ ds, d < 10) (negative : Bool) (count mantissa : Nat)
    (rest : PyStr) :
    run limit ⟨.number .int ⟨negative, count, mantissa, 0, false, 0⟩, stack⟩
        (ds.map (fun d => chr (48 + d)) ++ rest) =
      run limit ⟨.number .int ⟨negative, count + ds.length, ds.foldl (fun m d => 10 * m + d) mantissa, 0, false, 0⟩,
        stack⟩ rest := by
  induction ds generalizing count mantissa with
  | nil => rfl
  | cons d ds ih =>
      have hd : d < 10 := hds d (List.mem_cons_self ..)
      have hval : (chr (48 + d)).val = 48 + d := chr_val (by omega)
      have hdigit : isDigit (chr (48 + d)) = true := by
        simp only [isDigit, hval, Bool.and_eq_true, decide_eq_true_eq]
        omega
      have hstep : step limit ⟨.number .int ⟨negative, count, mantissa, 0, false, 0⟩, stack⟩ (chr (48 + d)) =
          .ok ⟨.number .int ⟨negative, count + 1, 10 * mantissa + d, 0, false, 0⟩, stack⟩ := by
        have hdig : digit (chr (48 + d)) = d := by
          rw [digit, hval]
          omega
        simp only [step, Part.next, hdigit, if_true, Numeral.push, hdig]
      rw [List.map_cons, List.cons_append, run_ok hstep, ih fun x hx => hds x (List.mem_cons_of_mem d hx),
        List.length_cons, List.foldl_cons, Nat.add_assoc, Nat.add_comm 1]

/-- The character behind an integer ends it and is then read as what follows, which is the one place where the
reader looks at a character twice. -/
theorem run_ends {part : Part} {n : Numeral} {i : Int} (hpart : part = .zero ∨ part = .int)
    (hn : n.toInt = .ok (.int i)) {rest : PyStr} (hrest : Ends rest) :
    run limit ⟨.number part n, stack⟩ rest = run limit (complete (.int i) stack) rest := by
  obtain ⟨c, cs, rfl, hc⟩ := hrest
  have hstep : step limit ⟨.number part n, stack⟩ c = delimiter (complete (.int i) stack) c := by
    have hread : n.read part = .ok (.int i) := by
      rcases hpart with rfl | rfl <;> exact hn
    have hnext : part.next c = none := by
      rcases hpart with rfl | rfl <;> rcases hc with rfl | rfl <;> rfl
    have hminus : ¬ (part = .minus ∧ c = codePoint 'I') := by
      rcases hpart with rfl | rfl <;> simp
    simp only [step, hnext, if_neg hminus, hread]
    rfl
  rw [run, run, hstep, step_complete]

theorem foldl_digits (n : Nat) : (Nat.digits 10 n).reverse.foldl (fun m d => 10 * m + d) 0 = n := by
  rw [List.foldl_reverse]
  calc (Nat.digits 10 n).foldr (fun d m => 10 * m + d) 0
      = (Nat.digits 10 n).foldr (fun d m => d + 10 * m) 0 := by simp only [Nat.add_comm]
    _ = Nat.ofDigits 10 (Nat.digits 10 n) := (Nat.ofDigits_eq_foldr 10 _).symm
    _ = n := Nat.ofDigits_digits 10 n

/-- The digits of a natural number, behind an optional sign. -/
theorem run_decimal {n : Nat} (hlen : (decimal n).length ≤ maxStrDigits) (negative : Bool) {rest : PyStr}
    (hrest : Ends rest) :
    run limit ⟨.number .minus ⟨negative, 0, 0, 0, false, 0⟩, stack⟩ (decimal n ++ rest) =
      run limit (complete (.int (if negative then -(n : Int) else n)) stack) rest := by
  unfold decimal at hlen ⊢
  split at hlen
  · rename_i h0
    subst h0
    rw [if_pos rfl, List.cons_append,
      run_ok (t := ⟨.number .zero ⟨negative, 1, 0, 0, false, 0⟩, stack⟩) rfl]
    exact run_ends (Or.inl rfl) rfl hrest
  · rename_i h0
    rw [if_neg h0]
    have hlt : ∀ d ∈ (Nat.digits 10 n).reverse, d < 10 := by
      intro d hd
      exact Nat.digits_lt_base (by decide) (List.mem_reverse.mp hd)
    have hvalue := foldl_digits n
    have hne : Nat.digits 10 n ≠ [] := fun h => h0 (Nat.digits_eq_nil_iff_eq_zero.mp h)
    have hlead := Nat.getLast_digit_ne_zero 10 h0
    cases hds : (Nat.digits 10 n).reverse with
    | nil => exact absurd (List.reverse_eq_nil_iff.mp hds) hne
    | cons d ds =>
        rw [hds] at hlt hlen hvalue
        have hd : d < 10 := hlt d (List.mem_cons_self ..)
        have hd0 : d ≠ 0 := by
          have hlast : (Nat.digits 10 n).getLast hne = d := by
            have := List.reverse_eq_cons_iff.mp hds
            simp only [this, List.getLast_append_singleton]
          rw [← hlast]
          exact hlead
        have hstep : step limit ⟨.number .minus ⟨negative, 0, 0, 0, false, 0⟩, stack⟩ (chr (48 + d)) =
            .ok ⟨.number .int ⟨negative, 1, d, 0, false, 0⟩, stack⟩ := by
          interval_cases d <;> first | exact absurd rfl hd0 | rfl
        rw [List.map_cons, List.cons_append, run_ok hstep,
          run_digits fun x hx => hlt x (List.mem_cons_of_mem d hx)]
        refine run_ends (Or.inr rfl) ?_ hrest
        have hcount : ¬ maxStrDigits < 1 + ds.length := by
          simp only [List.length_map, List.length_cons] at hlen
          omega
        have hvalue' : ds.foldl (fun m d => 10 * m + d) d = n := by simpa using hvalue
        simp only [Numeral.toInt, if_neg hcount, hvalue']

/-! ### Values -/

variable {floatRepr : Float → PyStr}

/-- A value is read back wherever at most `limit` containers are open with those inside it: behind its text
the reader has the value, complete, in hand. -/
def ReadsBack (floatRepr : Float → PyStr) (limit n : Nat) (v : Json) : Prop :=
  ∀ (stack : List Frame) (level : Nat) (rest : PyStr), stack.length + n ≤ limit → Ends rest →
    run limit ⟨.value, stack⟩ (v.pretty floatRepr level ++ rest) = run limit (complete v stack) rest

theorem decimal_cons (n : Nat) : ∃ c cs, decimal n = c :: cs ∧ isDigit c = true := by
  unfold decimal
  split
  · exact ⟨_, _, rfl, by decide⟩
  · rename_i h0
    cases hds : (Nat.digits 10 n).reverse with
    | nil => exact absurd (Nat.digits_eq_nil_iff_eq_zero.mp (List.reverse_eq_nil_iff.mp hds)) h0
    | cons d ds =>
        have hmem : d ∈ (Nat.digits 10 n).reverse := by simp [hds]
        have hd : d < 10 := Nat.digits_lt_base (by decide) (List.mem_reverse.mp hmem)
        refine ⟨_, _, rfl, ?_⟩
        rw [isDigit, chr_val (by omega)]
        simp only [Bool.and_eq_true, decide_eq_true_eq]
        omega

theorem ne_of_isDigit {c : CodePoint} (hc : isDigit c = true) : isSpace c = false ∧ c ≠ codePoint ']' := by
  refine ⟨?_, ?_⟩
  · by_contra h
    simp only [isSpace, List.mem_cons, List.not_mem_nil, or_false, Bool.not_eq_false, decide_eq_true_eq] at h
    simp only [isDigit, Bool.and_eq_true, decide_eq_true_eq] at hc
    omega
  · rintro rfl
    exact absurd hc (by decide)

/-- No value begins with white space or a closing bracket, so the reader cannot take it for the end of an
empty array. -/
theorem pretty_cons (floatRepr : Float → PyStr) {n : Nat} {v : Json} (h : v.Plain n) (level : Nat) :
    ∃ c cs, v.pretty floatRepr level = c :: cs ∧ isSpace c = false ∧ c ≠ codePoint ']' := by
  cases h with
  | null => exact ⟨_, _, rfl, by decide, by decide⟩
  | bool _ b => cases b <;> exact ⟨_, _, rfl, by decide, by decide⟩
  | @int _ i _ =>
      obtain ⟨c, cs, hcs, hc⟩ := decimal_cons i.natAbs
      by_cases hi : i < 0
      · exact ⟨_, _, by rw [Json.pretty, intRepr, if_pos hi], by decide, by decide⟩
      · refine ⟨c, cs, ?_, ne_of_isDigit hc⟩
        rw [Json.pretty, intRepr, if_neg hi, hcs]
  | str _ s => exact ⟨_, _, rfl, by decide, by decide⟩
  | @arr _ items _ => cases items <;> exact ⟨_, _, rfl, by decide, by decide⟩
  | @obj _ fields _ _ => cases fields <;> exact ⟨_, _, rfl, by decide, by decide⟩

/-- Behind `[` a value starts as it does anywhere. -/
theorem run_firstItem {n : Nat} {v : Json} (h : v.Plain n) (level : Nat) (rest : PyStr) :
    run limit ⟨.firstItem, stack⟩ (v.pretty floatRepr level ++ rest) =
      run limit ⟨.value, .arr [] :: stack⟩ (v.pretty floatRepr level ++ rest) := by
  obtain ⟨c, cs, hcs, hspace, hclose⟩ := pretty_cons floatRepr h level
  have hstep : step limit ⟨.firstItem, stack⟩ c = step limit ⟨.value, .arr [] :: stack⟩ c := by
    simp only [step, hspace, if_neg hclose, Bool.false_eq_true, if_false]
  rw [hcs, List.cons_append, run, run, hstep]

theorem run_int {n : Nat} {i : Int} (h : (decimal i.natAbs).length ≤ maxStrDigits) :
    ReadsBack floatRepr limit n (.int i) := by
  intro stack level rest _ hrest
  rw [Json.pretty, intRepr]
  by_cases hi : i < 0
  · have hvalue : (if true then -(i.natAbs : Int) else i.natAbs) = i := by
      rw [if_pos rfl]
      omega
    rw [if_pos hi, List.cons_append,
      run_ok (t := ⟨.number .minus ⟨true, 0, 0, 0, false, 0⟩, stack⟩) rfl, run_decimal h true hrest, hvalue]
  · have hvalue : (if false then -(i.natAbs : Int) else i.natAbs) = i := by
      rw [if_neg (by decide)]
      omega
    rw [if_neg hi]
    have hdecimal : run limit ⟨.number .minus ⟨false, 0, 0, 0, false, 0⟩, stack⟩ (decimal i.natAbs ++ rest) = _ :=
      run_decimal h false hrest
    rw [hvalue] at hdecimal
    rw [← hdecimal]
    obtain ⟨c, cs, hcs, hc⟩ := decimal_cons i.natAbs
    rw [hcs, List.cons_append, run, run]
    -- the first digit of a value is the first digit behind a sign that is not there
    have hstep : step limit ⟨.value, stack⟩ c = step limit ⟨.number .minus ⟨false, 0, 0, 0, false, 0⟩, stack⟩ c := by
      have hval : c.val ∈ List.range' 48 10 := by
        simp only [isDigit, Bool.and_eq_true, decide_eq_true_eq] at hc
        simp only [List.mem_range'_1]
        omega
      rw [← chr_val_eq c]
      simp only [List.range', List.mem_cons, List.not_mem_nil, or_false] at hval
      rcases hval with h | h | h | h | h | h | h | h | h | h <;> rw [h] <;> rfl
    rw [hstep]

theorem run_items (stack : List Frame) {n : Nat} {vs : List Json} (hvs : ∀ v ∈ vs, ReadsBack floatRepr limit n v) (items : List Json)
    (level : Nat) {rest : PyStr} (hroom : stack.length + 1 + n ≤ limit) (hrest : Ends rest) :
    run limit ⟨.afterItem items, stack⟩ (Json.prettyItems floatRepr level vs ++ rest) =
      run limit ⟨.afterItem (vs.reverse ++ items), stack⟩ rest := by
  induction vs generalizing items with
  | nil => rfl
  | cons v vs ih =>
      have hends : Ends (Json.prettyItems floatRepr level vs ++ rest) := by
        cases vs with
        | nil => exact hrest
        | cons w ws => exact ⟨_, _, rfl, Or.inl rfl⟩
      have hskip : Skips limit ⟨.value, .arr items :: stack⟩ := by
        intro c hc
        simp only [step, hc, if_true]
      have hv := hvs v (List.mem_cons_self ..) (.arr items :: stack) level _ (by simpa using hroom) hends
      rw [Json.prettyItems, List.cons_append, run_ok (t := ⟨.value, .arr items :: stack⟩) rfl]
      simp only [List.append_assoc]
      rw [run_newline hskip, hv]
      exact (ih (fun w hw => hvs w (List.mem_cons_of_mem v hw)) (v :: items)).trans (by simp)

/-- A member, from behind the opening quote of its name: the name, the colon and the space, and then the value
as anywhere. -/
theorem run_member (stack : List Frame) {n : Nat} {v : Json} (hv : ReadsBack floatRepr limit n v) (fields : Dict Json) (key : PyStr)
    (level : Nat) {rest : PyStr} (hroom : stack.length + 1 + n ≤ limit) (hrest : Ends rest) :
    run limit ⟨.string (.key fields) [] false, stack⟩
        (key.flatMap escape ++ codePoint '"' :: (lit ": " ++ (v.pretty floatRepr level ++ rest))) =
      run limit ⟨.afterMember (fields.set key v), stack⟩ rest := by
  have hvalue := hv (.obj fields key :: stack) level rest (by simpa using hroom) hrest
  have hcolon : lit ": " ++ (v.pretty floatRepr level ++ rest) =
      codePoint ':' :: codePoint ' ' :: (v.pretty floatRepr level ++ rest) := rfl
  rw [run_quoted, List.reverse_nil, List.nil_append, endString, hcolon,
    run_ok (t := ⟨.value, .obj fields key :: stack⟩) rfl,
    run_ok (t := ⟨.value, .obj fields key :: stack⟩) rfl, hvalue]
  rfl

theorem put_of_not_mem {l : List (PyStr × Json)} {key : PyStr} (v : Json) (h : key ∉ l.map Prod.fst) :
    Dict.put l key v = l ++ [(key, v)] := by
  induction l with
  | nil => rfl
  | cons e l ih =>
      obtain ⟨k, w⟩ := e
      simp only [List.map_cons, List.mem_cons, not_or] at h
      rw [Dict.put, if_neg (Ne.symm h.1), ih h.2, List.cons_append]

theorem run_fields (stack : List Frame) {n : Nat} {fs : List (PyStr × Json)} (hfs : ∀ f ∈ fs, ReadsBack floatRepr limit n f.2)
    (fields : Dict Json) (hnodup : ((fields.entries ++ fs).map Prod.fst).Nodup) (level : Nat) {rest : PyStr}
    (hroom : stack.length + 1 + n ≤ limit) (hrest : Ends rest) :
    run limit ⟨.afterMember fields, stack⟩ (Json.prettyFields floatRepr level fs ++ rest) =
      run limit ⟨.afterMember ⟨fields.entries ++ fs, hnodup⟩, stack⟩ rest := by
  induction fs generalizing fields with
  | nil =>
      have hsame : fields = ⟨fields.entries ++ [], hnodup⟩ := Dict.ext_entries (List.append_nil _).symm
      rw [← hsame]
      rfl
  | cons f fs ih =>
      obtain ⟨k, v⟩ := f
      have hends : Ends (Json.prettyFields floatRepr level fs ++ rest) := by
        cases fs with
        | nil => exact hrest
        | cons g gs => exact ⟨_, _, rfl, Or.inl rfl⟩
      have hskip : Skips limit ⟨.key fields, stack⟩ := by
        intro c hc
        simp only [step, hc, if_true]
      have hput : (fields.set k v).entries = fields.entries ++ [(k, v)] := by
        refine put_of_not_mem v fun hk => ?_
        rw [List.map_append] at hnodup
        exact List.disjoint_of_nodup_append hnodup hk (by simp)
      have hnodup' : (((fields.set k v).entries ++ fs).map Prod.fst).Nodup := by
        rw [hput, List.append_assoc]
        exact hnodup
      have hsame : (⟨(fields.set k v).entries ++ fs, hnodup'⟩ : Dict Json) =
          ⟨fields.entries ++ (k, v) :: fs, hnodup⟩ := by
        refine Dict.ext_entries ?_
        show (fields.set k v).entries ++ fs = _
        rw [hput, List.append_assoc]
        rfl
      have hmember := run_member stack (hfs (k, v) (List.mem_cons_self ..)) fields k level hroom hends
      rw [Json.prettyFields, List.cons_append, run_ok (t := ⟨.key fields, stack⟩) rfl]
      simp only [List.append_assoc, quote, List.cons_append, List.nil_append]
      rw [run_newline hskip, run_ok (t := ⟨.string (.key fields) [] false, stack⟩) rfl, hmember,
        ih (fun g hg => hfs g (List.mem_cons_of_mem _ hg)) (fields.set k v) hnodup', hsame]

/-- **Every plain value is read back**, by induction on the value; the bound on the nesting is spent one
container at a time. -/
theorem readsBack {n : Nat} {v : Json} (h : v.Plain n) : ReadsBack floatRepr limit n v := by
  induction h with
  | null => exact fun _ _ _ _ _ => rfl
  | bool _ b =>
      intro stack level rest _ _
      cases b <;> rfl
  | int _ hlen => exact run_int hlen
  | str _ s =>
      intro stack level rest _ _
      rw [Json.pretty, quote, List.cons_append, run_ok (t := ⟨.string .value [] false, stack⟩) rfl,
        List.append_assoc]
      exact run_quoted _ _ _ _
  | @arr n items hplain ih =>
      intro stack level rest hroom hrest
      have hopen : step limit ⟨.value, stack⟩ (codePoint '[') = .ok ⟨.firstItem, stack⟩ :=
        if_pos (show stack.length < limit by omega)
      cases items with
      | nil =>
          show run limit ⟨.value, stack⟩ (codePoint '[' :: codePoint ']' :: rest) = _
          rw [run_ok hopen]
          exact run_ok rfl rest
      | cons v vs =>
          have hskip : Skips limit ⟨.firstItem, stack⟩ := by
            intro c hc
            simp only [step, hc, if_true]
          have hitems := run_items stack
            (fun w hw => ih w (List.mem_cons_of_mem v hw)) [v] (level + 1) (by omega)
            (ends_newline level (codePoint ']' :: rest))
          have hends : Ends (Json.prettyItems floatRepr (level + 1) vs ++
              (newline level ++ codePoint ']' :: rest)) := by
            cases vs with
            | nil => exact ends_newline level _
            | cons w ws => exact ⟨_, _, rfl, Or.inl rfl⟩
          have hv := ih v (List.mem_cons_self ..) (.arr [] :: stack) (level + 1) _
            (by rw [List.length_cons]; omega) hends
          rw [Json.pretty, List.cons_append, run_ok hopen]
          simp only [List.append_assoc, List.cons_append, List.nil_append]
          rw [run_newline hskip, run_firstItem (hplain v (List.mem_cons_self ..)), hv]
          show run limit ⟨.afterItem [v], stack⟩ _ = _
          rw [hitems, run_newline (skips_delimiter fun c => rfl)]
          refine (run_ok (t := complete (.arr (vs.reverse ++ [v]).reverse) stack) rfl rest).trans ?_
          rw [List.reverse_append, List.reverse_reverse]
          rfl
  | @obj n fields hnodup hplain ih =>
      intro stack level rest hroom hrest
      have hopen : step limit ⟨.value, stack⟩ (codePoint '\x7b') = .ok ⟨.firstKey, stack⟩ :=
        if_pos (show stack.length < limit by omega)
      cases fields with
      | nil =>
          show run limit ⟨.value, stack⟩ (codePoint '\x7b' :: codePoint '\x7d' :: rest) = _
          rw [run_ok hopen]
          exact run_ok rfl rest
      | cons f fs =>
          obtain ⟨k, v⟩ := f
          have hskip : Skips limit ⟨.firstKey, stack⟩ := by
            intro c hc
            simp only [step, hc, if_true]
          have hends : Ends (Json.prettyFields floatRepr (level + 1) fs ++
              (newline level ++ codePoint '\x7d' :: rest)) := by
            cases fs with
            | nil => exact ends_newline level _
            | cons g gs => exact ⟨_, _, rfl, Or.inl rfl⟩
          have hmember := run_member stack (ih (k, v) (List.mem_cons_self ..)) emptyDict k (level + 1)
            (by omega) hends
          have hfields := run_fields stack
            (fun g hg => ih g (List.mem_cons_of_mem _ hg)) (emptyDict.set k v) hnodup (level + 1) (by omega)
            (ends_newline level (codePoint '\x7d' :: rest))
          rw [Json.pretty, List.cons_append, run_ok hopen]
          simp only [List.append_assoc, quote, List.cons_append, List.nil_append]
          rw [run_newline hskip, run_ok (t := ⟨.string (.key emptyDict) [] false, stack⟩) rfl, hmember, hfields,
            run_newline (skips_delimiter fun c => rfl)]
          exact run_ok rfl rest

end Run

end JsonText

/-! ## §3 — the round trip. -/

theorem sortMembers_perm (fields : List (PyStr × Json)) : (sortMembers fields).Perm fields :=
  List.perm_insertionSort _ fields

theorem sortedItems_eq (items : List Json) : Json.sortedItems items = items.map Json.sorted := by
  induction items with
  | nil => rfl
  | cons v vs ih => rw [Json.sortedItems, ih, List.map_cons]

theorem sortedFields_eq (fields : List (PyStr × Json)) :
    Json.sortedFields fields = fields.map fun f => (f.1, f.2.sorted) := by
  induction fields with
  | nil => rfl
  | cons f fs ih =>
      obtain ⟨k, v⟩ := f
      rw [Json.sortedFields, ih, List.map_cons]

/-- The members, each with its value sorted, in another order: nothing is added and nothing is lost. -/
theorem sorted_fields_perm (fields : List (PyStr × Json)) :
    (sortMembers (Json.sortedFields fields)).Perm (fields.map fun f => (f.1, f.2.sorted)) := by
  rw [← sortedFields_eq]
  exact sortMembers_perm _

theorem sorted_names_perm (fields : List (PyStr × Json)) :
    ((sortMembers (Json.sortedFields fields)).map Prod.fst).Perm (fields.map Prod.fst) := by
  have h := (sorted_fields_perm fields).map Prod.fst
  rwa [List.map_map] at h

theorem Json.Plain.mono {n m : Nat} {v : Json} (h : v.Plain n) (hnm : n ≤ m) : v.Plain m := by
  induction h generalizing m with
  | null => exact .null m
  | bool _ b => exact .bool m b
  | int _ hlen => exact .int m hlen
  | str _ s => exact .str m s
  | arr _ ih =>
      obtain ⟨m, rfl⟩ := Nat.exists_eq_succ_of_ne_zero (show m ≠ 0 by omega)
      exact .arr fun v hv => ih v hv (by omega)
  | obj hnodup _ ih =>
      obtain ⟨m, rfl⟩ := Nat.exists_eq_succ_of_ne_zero (show m ≠ 0 by omega)
      exact .obj hnodup fun f hf => ih f hf (by omega)

theorem Json.Plain.sorted {n : Nat} {v : Json} (h : v.Plain n) : v.sorted.Plain n := by
  induction h with
  | null n => exact .null n
  | bool n b => exact .bool n b
  | int n hlen => exact .int n hlen
  | str n s => exact .str n s
  | @arr n items _ ih =>
      rw [Json.sorted, sortedItems_eq]
      refine .arr fun v hv => ?_
      obtain ⟨w, hw, rfl⟩ := List.mem_map.mp hv
      exact ih w hw
  | @obj n fields hnodup _ ih =>
      rw [Json.sorted]
      refine .obj ((sorted_names_perm fields).nodup_iff.mpr hnodup) fun f hf => ?_
      obtain ⟨g, hg, rfl⟩ := List.mem_map.mp ((sorted_fields_perm fields).mem_iff.mp hf)
      exact ih g hg

/-- **The round trip**: what is written and ended by a new line is read back, with its members sorted.  The
new line is the one that `_write` appends to the text. -/
theorem loads_dumps (floatRepr : Float → PyStr) {limit : Nat} {doc : Json} (h : doc.Plain limit) :
    loads limit (dumps floatRepr doc ++ "\n") = .ok doc.sorted := by
  have hread : JsonText.ReadsBack floatRepr limit limit doc.sorted := JsonText.readsBack h.sorted
  exact (hread [] 0 "\n" (by simp) (JsonText.ends_newline 0 [])).trans rfl

/-! ## §4 — the file. -/

section File

variable (floatRepr : Float → PyStr)

theorem encodable_cons (c : CodePoint) (s : PyStr) : encodable (c :: s) = (!isSurrogate c && encodable s) := rfl

theorem encodable_escape (c : CodePoint) : encodable (escape c) = !isSurrogate c := by
  have hplain : ∀ c' : CodePoint, c'.val < 128 → isSurrogate c' = false := by
    intro c' hc'
    have : ¬ 0xD800 ≤ c'.val := by omega
    simp [isSurrogate, this]
  unfold escape
  split_ifs with h1 h2 h3 h4 h5 h6 h7 h8
  · rw [h1]
    decide
  · rw [h2]
    decide
  · rw [h3]
    decide
  · rw [h4]
    decide
  · rw [h5]
    decide
  · rw [h6]
    decide
  · rw [h7]
    decide
  · rw [hplain c (by omega)]
    simp [encodable, isSurrogate_codePoint]
  · simp [encodable]

theorem encodable_quote (s : PyStr) : encodable (quote s) = encodable s := by
  have hbody : encodable (s.flatMap escape) = encodable s := by
    induction s with
    | nil => rfl
    | cons c s ih => rw [List.flatMap_cons, encodable_append, encodable_escape, ih, encodable_cons]
  rw [quote, encodable_cons, encodable_append, hbody, isSurrogate_codePoint]
  simp [encodable, isSurrogate_codePoint]

@[simp] theorem encodable_newline (level : Nat) : encodable (newline level) = true := by
  rw [newline, encodable_cons, isSurrogate_codePoint]
  simp [encodable, isSurrogate_codePoint]

theorem encodable_decimal (n : Nat) : encodable (decimal n) = true := by
  unfold decimal
  split
  · decide
  · simp only [encodable, List.all_map, List.all_eq_true, List.mem_reverse]
    intro d hd
    have hlt : d < 10 := Nat.digits_lt_base (by decide) hd
    have hnot : ¬ 0xD800 ≤ (chr (48 + d)).val := by
      rw [chr_val (by omega)]
      omega
    simp [isSurrogate, hnot]

theorem encodable_prettyItems {vs : List Json} {level : Nat}
    (h : ∀ v ∈ vs, encodable (v.pretty floatRepr level) = v.encodable) :
    encodable (Json.prettyItems floatRepr level vs) = Json.encodableAll vs := by
  induction vs with
  | nil => rfl
  | cons v vs ih =>
      have hv := h v (List.mem_cons_self ..)
      have hvs := ih fun w hw => h w (List.mem_cons_of_mem v hw)
      simp only [Json.prettyItems, Json.encodableAll, encodable_cons, encodable_append, encodable_newline, hv, hvs,
        isSurrogate_codePoint, Bool.not_false, Bool.true_and]

theorem encodable_prettyFields {fs : List (PyStr × Json)} {level : Nat}
    (h : ∀ f ∈ fs, encodable (f.2.pretty floatRepr level) = f.2.encodable) :
    encodable (Json.prettyFields floatRepr level fs) = Json.encodableFields fs := by
  induction fs with
  | nil => rfl
  | cons f fs ih =>
      obtain ⟨k, v⟩ := f
      have hv := h (k, v) (List.mem_cons_self ..)
      have hfs := ih fun g hg => h g (List.mem_cons_of_mem _ hg)
      simp only [Json.prettyFields, Json.encodableFields, encodable_cons, encodable_append, encodable_newline,
        encodable_quote, encodable_lit, hv, hfs, isSurrogate_codePoint, Bool.not_false, Bool.true_and, Bool.and_true,
        Bool.and_assoc]

/-- **What reaches the encoder** are the texts of the document, so the file is refused exactly when the
document has a lone surrogate in a text or in a name. -/
theorem encodable_pretty {n : Nat} {v : Json} (h : v.Plain n) (level : Nat) :
    encodable (v.pretty floatRepr level) = v.encodable := by
  induction h generalizing level with
  | null => rfl
  | bool _ b => cases b <;> rfl
  | @int _ i _ =>
      rw [Json.pretty, intRepr, Json.encodable]
      split
      · rw [encodable_cons, encodable_decimal, isSurrogate_codePoint]
        rfl
      · exact encodable_decimal _
  | str _ s =>
      rw [Json.pretty, encodable_quote, Json.encodable]
  | @arr n items _ ih =>
      cases items with
      | nil => rfl
      | cons v vs =>
          have hv := ih v (List.mem_cons_self ..) (level + 1)
          have hvs := encodable_prettyItems floatRepr fun w hw => ih w (List.mem_cons_of_mem v hw) (level + 1)
          simp only [Json.pretty, Json.encodable, Json.encodableAll, encodable_cons, encodable_append,
            encodable_newline, hv, hvs, isSurrogate_codePoint, Bool.not_false, Bool.true_and, Bool.and_true]
          simp [encodable]
  | @obj n fields _ _ ih =>
      cases fields with
      | nil => rfl
      | cons f fs =>
          obtain ⟨k, v⟩ := f
          have hv := ih (k, v) (List.mem_cons_self ..) (level + 1)
          have hfs := encodable_prettyFields floatRepr fun g hg => ih g (List.mem_cons_of_mem _ hg) (level + 1)
          simp only [Json.pretty, Json.encodable, Json.encodableFields, encodable_cons, encodable_append,
            encodable_newline, encodable_quote, encodable_lit, hv, hfs, isSurrogate_codePoint, Bool.not_false,
            Bool.true_and, Bool.and_true, Bool.and_assoc]
          simp [encodable]

/-- The only control character of a text is the new line, so reading it as text changes no character of it. -/
def Tidy (s : PyStr) : Prop := ∀ c ∈ s, c = codePoint '\n' ∨ 32 ≤ c.val

theorem Tidy.append {s t : PyStr} (hs : Tidy s) (ht : Tidy t) : Tidy (s ++ t) := by
  intro c hc
  rcases List.mem_append.mp hc with hc | hc
  · exact hs c hc
  · exact ht c hc

theorem Tidy.cons {c : CodePoint} {s : PyStr} (hc : c = codePoint '\n' ∨ 32 ≤ c.val) (hs : Tidy s) :
    Tidy (c :: s) := by
  intro x hx
  rcases List.mem_cons.mp hx with rfl | hx
  · exact hc
  · exact hs x hx

theorem tidy_nil : Tidy [] := by
  intro c hc
  cases hc

theorem tidy_lit {s : String} (h : s.toList.all (fun c => 32 ≤ c.toNat) = true) : Tidy s := by
  intro c hc
  obtain ⟨x, hx, rfl⟩ := List.mem_map.mp hc
  exact Or.inr (of_decide_eq_true (List.all_eq_true.mp h x hx))

theorem tidy_newline (level : Nat) : Tidy (newline level) := by
  refine .cons (Or.inl rfl) fun c hc => Or.inr ?_
  rw [List.eq_of_mem_replicate hc]
  decide

theorem tidy_quote (s : PyStr) : Tidy (quote s) := by
  have hhex : ∀ d, d < 16 → 32 ≤ (codePoint (hexDigit d)).val := by decide
  have hpair : ∀ {a b : CodePoint}, 32 ≤ a.val → 32 ≤ b.val → ∀ x ∈ [a, b], 32 ≤ x.val := by
    simp +contextual
  refine .cons (Or.inr (by decide)) (.append ?_ (.cons (Or.inr (by decide)) tidy_nil))
  intro x hx
  obtain ⟨c, _, hx⟩ := List.mem_flatMap.mp hx
  refine Or.inr ?_
  unfold escape at hx
  split_ifs at hx with h1 h2 h3 h4 h5 h6 h7 h8
  · exact hpair (by decide) (by decide) x hx
  · exact hpair (by decide) (by decide) x hx
  · exact hpair (by decide) (by decide) x hx
  · exact hpair (by decide) (by decide) x hx
  · exact hpair (by decide) (by decide) x hx
  · exact hpair (by decide) (by decide) x hx
  · exact hpair (by decide) (by decide) x hx
  · have hhigh := hhex (c.val / 16) (by omega)
    have hlow := hhex (c.val % 16) (by omega)
    simp only [List.mem_cons, List.not_mem_nil, or_false] at hx
    rcases hx with rfl | rfl | rfl | rfl | rfl | rfl
    · decide
    · decide
    · decide
    · decide
    · exact hhigh
    · exact hlow
  · obtain rfl := List.mem_singleton.mp hx
    omega

theorem tidy_decimal (n : Nat) : Tidy (decimal n) := by
  unfold decimal
  split
  · exact .cons (Or.inr (by decide)) tidy_nil
  · intro c hc
    obtain ⟨d, hd, rfl⟩ := List.mem_map.mp hc
    have hlt : d < 10 := Nat.digits_lt_base (by decide) (List.mem_reverse.mp hd)
    rw [chr_val (by omega)]
    omega

theorem tidy_prettyItems {vs : List Json} {level : Nat} (h : ∀ v ∈ vs, Tidy (v.pretty floatRepr level)) :
    Tidy (Json.prettyItems floatRepr level vs) := by
  induction vs with
  | nil => exact tidy_nil
  | cons v vs ih =>
      have hvs := ih fun w hw => h w (List.mem_cons_of_mem v hw)
      exact .cons (Or.inr (by decide)) (((tidy_newline level).append (h v (List.mem_cons_self ..))).append hvs)

theorem tidy_prettyFields {fs : List (PyStr × Json)} {level : Nat}
    (h : ∀ f ∈ fs, Tidy (f.2.pretty floatRepr level)) : Tidy (Json.prettyFields floatRepr level fs) := by
  induction fs with
  | nil => exact tidy_nil
  | cons f fs ih =>
      obtain ⟨k, v⟩ := f
      have hfs := ih fun g hg => h g (List.mem_cons_of_mem _ hg)
      have hcolon : Tidy ": " := .cons (Or.inr (by decide)) (.cons (Or.inr (by decide)) tidy_nil)
      exact .cons (Or.inr (by decide))
        (((((tidy_newline level).append (tidy_quote k)).append hcolon).append (h (k, v) (List.mem_cons_self ..))).append
          hfs)

/-- **Control characters are escaped**, so only the writer's own new lines stand in the file. -/
theorem tidy_pretty {n : Nat} {v : Json} (h : v.Plain n) (level : Nat) : Tidy (v.pretty floatRepr level) := by
  induction h generalizing level with
  | null => exact tidy_lit (by decide)
  | bool _ b =>
      cases b
      · exact tidy_lit (s := "false") (by decide)
      · exact tidy_lit (s := "true") (by decide)
  | @int _ i _ =>
      rw [Json.pretty, intRepr]
      split
      · exact .cons (Or.inr (by decide)) (tidy_decimal _)
      · exact tidy_decimal _
  | str _ s => exact tidy_quote s
  | @arr n items _ ih =>
      have hclose : Tidy [codePoint ']'] := .cons (Or.inr (by decide)) tidy_nil
      cases items with
      | nil => exact .cons (Or.inr (by decide)) hclose
      | cons v vs =>
          have hv := ih v (List.mem_cons_self ..) (level + 1)
          have hvs := tidy_prettyItems floatRepr fun w hw => ih w (List.mem_cons_of_mem v hw) (level + 1)
          exact .cons (Or.inr (by decide))
            (((((tidy_newline _).append hv).append hvs).append (tidy_newline level)).append hclose)
  | @obj n fields _ _ ih =>
      have hclose : Tidy [codePoint '\x7d'] := .cons (Or.inr (by decide)) tidy_nil
      have hcolon : Tidy ": " := .cons (Or.inr (by decide)) (.cons (Or.inr (by decide)) tidy_nil)
      cases fields with
      | nil => exact .cons (Or.inr (by decide)) hclose
      | cons f fs =>
          obtain ⟨k, v⟩ := f
          have hv := ih (k, v) (List.mem_cons_self ..) (level + 1)
          have hfs := tidy_prettyFields floatRepr fun g hg => ih g (List.mem_cons_of_mem _ hg) (level + 1)
          exact .cons (Or.inr (by decide))
            (((((((tidy_newline _).append (tidy_quote k)).append hcolon).append hv).append hfs).append
              (tidy_newline level)).append hclose)

/-- Universal newlines leave a text without `\r` alone. -/
theorem newlines_of_tidy {s : PyStr} (h : Tidy s) : newlines false s = s := by
  induction s with
  | nil => rfl
  | cons c s ih =>
      have hc : c ≠ codePoint '\r' := by
        rintro rfl
        exact absurd (h _ (List.mem_cons_self ..)) (by decide)
      rw [newlines, if_neg hc, if_neg (by simp), ih fun x hx => h x (List.mem_cons_of_mem c hx)]

/-- The bytes of the file: the text, ended by a new line, in UTF-8. -/
def dumpBytes (doc : Json) : List UInt8 := utf8 (dumps floatRepr doc ++ "\n")

theorem encodableAll_eq (items : List Json) : Json.encodableAll items = items.all Json.encodable := by
  induction items with
  | nil => rfl
  | cons v vs ih => rw [Json.encodableAll, ih, List.all_cons]

theorem encodableFields_eq (fields : List (PyStr × Json)) :
    Json.encodableFields fields = fields.all fun f => encodable f.1 && f.2.encodable := by
  induction fields with
  | nil => rfl
  | cons f fs ih =>
      obtain ⟨k, v⟩ := f
      rw [Json.encodableFields, ih, List.all_cons, Bool.and_assoc]

theorem encodable_sorted {n : Nat} {v : Json} (h : v.Plain n) : v.sorted.encodable = v.encodable := by
  induction h with
  | null => rfl
  | bool => rfl
  | int => rfl
  | str => rfl
  | @arr n items _ ih =>
      simp only [Json.sorted, Json.encodable, encodableAll_eq, sortedItems_eq, List.all_map]
      rw [Bool.eq_iff_iff, List.all_eq_true, List.all_eq_true]
      exact forall₂_congr fun v hv => by rw [Function.comp, ih v hv]
  | @obj n fields _ _ ih =>
      simp only [Json.sorted, Json.encodable, encodableFields_eq]
      rw [(sorted_fields_perm fields).all_eq, List.all_map, Bool.eq_iff_iff, List.all_eq_true, List.all_eq_true]
      exact forall₂_congr fun f hf => by rw [Function.comp, ih f hf]

/-- Where every text of the document encodes, its dump does. -/
theorem encodable_dumps {limit : Nat} {doc : Json} (h : doc.Plain limit) (henc : doc.encodable = true) :
    encodable (dumps floatRepr doc) = true := by
  rw [dumps, encodable_pretty floatRepr h.sorted, encodable_sorted h, henc]

/-- **The round trip through a file**: what is read back as text is what was dumped. -/
theorem fileText_dumpBytes {limit : Nat} {doc : Json} (h : doc.Plain limit) (henc : doc.encodable = true) :
    fileText (dumpBytes floatRepr doc) = some (dumps floatRepr doc ++ "\n") := by
  have hencodable : encodable (dumps floatRepr doc ++ "\n") = true := by
    rw [encodable_append, encodable_dumps floatRepr h henc, encodable_lit]
    rfl
  have htidy : Tidy (dumps floatRepr doc ++ "\n") :=
    (tidy_pretty floatRepr h.sorted 0).append (.cons (Or.inl rfl) tidy_nil)
  rw [fileText, dumpBytes, decodeUtf8_utf8 hencodable, Option.map_some, newlines_of_tidy htidy]

end File

end TradeBroker.Lib
