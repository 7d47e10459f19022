import Ensemble.Json.Printer
import Mathlib.Data.List.Forall2

/-!
# Texts of JSON values

`Json.ind` is the induction on values, with the values in an array or an
object as one list. The text of a value has no control characters, however
it is nested and whatever its strings are (`compact_visible`): so it has no
line ends, and the line of a chunk only ends where it should.

`Json.Compact` lists the rules of compact JSON, and `Json.Shows` the text that
stands for a value: a string stands for itself, any other value for its
compact JSON (`shows_plain`).
-/

namespace Ensemble

/-- Induction on a value: an array or an object has all its values below it. -/
@[induction_eliminator]
theorem Json.ind {motive : Json → Prop} (null : motive .null) (bool : ∀ b, motive (.bool b))
    (number : ∀ n, motive (.number n)) (string : ∀ s, motive (.string s))
    (array : ∀ items, (∀ v ∈ items, motive v) → motive (.array items))
    (object : ∀ fields, (∀ k v, (k, v) ∈ fields → motive v) → motive (.object fields))
    (v : Json) : motive v :=
  v.rec (motive_1 := motive) (motive_2 := fun items => ∀ v ∈ items, motive v)
    (motive_3 := fun fields => ∀ k v, (k, v) ∈ fields → motive v)
    (motive_4 := fun field => motive field.2) null bool number string array object (by simp)
    (fun v rest hv hrest w hw => (List.mem_cons.mp hw).elim (fun heq => heq ▸ hv) (hrest w))
    (by simp)
    (fun field rest hfield hrest k v hv =>
      (List.mem_cons.mp hv).elim (fun heq => by subst heq; exact hfield) (hrest k v))
    (fun k v hv => hv)

/-- Whether a character is no control character. -/
def Visible (c : Char) : Prop := 0x20 ≤ c.toNat

instance (c : Char) : Decidable (Visible c) := inferInstanceAs (Decidable (0x20 ≤ c.toNat))

/-- A text without control characters. -/
def AllVisible (cs : List Char) : Prop := ∀ c ∈ cs, Visible c

instance (cs : List Char) : Decidable (AllVisible cs) := List.decidableBAll Visible cs

namespace AllVisible

variable {cs ds : List Char} {c : Char}

theorem nil : AllVisible [] := by simp [AllVisible]

theorem cons (hc : Visible c) (hcs : AllVisible cs) : AllVisible (c :: cs) :=
  List.forall_mem_cons.mpr ⟨hc, hcs⟩

theorem append (hcs : AllVisible cs) (hds : AllVisible ds) : AllVisible (cs ++ ds) :=
  List.forall_mem_append.mpr ⟨hcs, hds⟩

theorem mono (hcs : AllVisible cs) (hsub : ds ⊆ cs) : AllVisible ds := fun c hc => hcs c (hsub hc)

theorem replicate (n : Nat) (hc : Visible c) : AllVisible (List.replicate n c) := by
  intro d hd
  rwa [List.eq_of_mem_replicate hd]

theorem newline_not_mem (hcs : AllVisible cs) : '\n' ∉ cs := fun hmem =>
  absurd (hcs _ hmem) (by decide)

end AllVisible

/-! ## Numbers -/

namespace Decimal

theorem natural_visible (n : Nat) : AllVisible (natural n) := by
  intro c hc
  have hdigit := Nat.isDigit_of_mem_toDigits (by decide) (by decide) hc
  simp only [Char.isDigit, Bool.and_eq_true, decide_eq_true_eq] at hdigit
  exact Nat.le_trans (by decide) (UInt32.le_iff_toNat_le.mp hdigit.1)

theorem integer_visible (i : Int) : AllVisible (integer i) := by
  cases i with
  | ofNat n => exact natural_visible n
  | negSucc n => exact .cons (by decide) (natural_visible (n + 1))

theorem positional_visible {digits : List Char} (h : AllVisible digits) (leading : Int) :
    AllVisible (positional digits leading) := by
  have hzero : Visible '0' := by decide
  have hpoint : Visible '.' := by decide
  unfold positional
  split
  · exact .cons hzero (.cons hpoint (.append (.replicate _ hzero) h))
  · refine .append ?_ (.cons hpoint ?_)
    · exact (h.append (.replicate _ hzero)).mono (List.take_subset _ _)
    · split
      · exact .cons hzero .nil
      · exact h.mono (List.drop_subset _ _)

theorem scientific_visible {digits : List Char} (h : AllVisible digits) (leading : Int) :
    AllVisible (scientific digits leading) := by
  have hexponent : AllVisible
      ('e' :: (if leading < 0 then '-' else '+') :: natural leading.natAbs) := by
    refine .cons (by decide) (.cons ?_ (natural_visible _))
    split <;> decide
  unfold scientific
  dsimp only
  split
  · exact .nil
  · exact .cons (h _ (List.mem_cons_self ..)) hexponent
  · obtain ⟨hfirst, hrest⟩ := List.forall_mem_cons.mp h
    exact .cons hfirst (.cons (by decide) (.append hrest hexponent))

theorem double_visible (bits : UInt64) : AllVisible (double bits) := by
  have hmagnitude : ∀ cs : List Char, AllVisible cs →
      AllVisible (if isNegative bits then '-' :: cs else cs) := by
    intro cs hcs
    split
    · exact .cons (by decide) hcs
    · exact hcs
  refine hmagnitude _ ?_
  split
  · exact .cons (by decide) (.cons (by decide) (.cons (by decide) .nil))
  · dsimp only
    split
    · exact positional_visible (natural_visible _) _
    · exact scientific_visible (natural_visible _) _

end Decimal

/-! ## Values -/

namespace Json

theorem hexDigit_visible : ∀ n < 16, Visible (hexDigit n) := by decide

/-- A control character is escaped, and other characters stand for themselves. -/
theorem escape_visible (c : Char) : AllVisible (escape c) := by
  unfold escape
  iterate 7 (split; · decide)
  split
  · rename_i hlt
    have hfirst : Visible (hexDigit (c.toNat / 16)) := hexDigit_visible _ (by omega)
    have hsecond : Visible (hexDigit (c.toNat % 16)) := hexDigit_visible _ (by omega)
    have hopening : AllVisible ['\\', 'u', '0', '0'] := by decide
    exact hopening.append (.cons hfirst (.cons hsecond .nil))
  · exact .cons (Nat.le_of_not_lt ‹_›) .nil

theorem quoted_visible (s : String) : AllVisible (quoted s) := by
  have hall : ∀ cs : List Char, AllVisible (escapeAll cs) := by
    intro cs
    induction cs with
    | nil => exact .nil
    | cons c cs ih => exact .append (escape_visible c) ih
  exact .cons (by decide) (.append (hall s.toList) (.cons (by decide) .nil))

theorem compactItems_visible {items : List Json} (h : ∀ v ∈ items, AllVisible v.compact) :
    AllVisible (compactItems items) := by
  induction items with
  | nil => exact .cons (by decide) .nil
  | cons v rest ih =>
      obtain ⟨hv, hrest⟩ := List.forall_mem_cons.mp h
      exact .cons (by decide) (.append hv (ih hrest))

theorem compactFields_visible {fields : List (String × Json)}
    (h : ∀ k v, (k, v) ∈ fields → AllVisible v.compact) : AllVisible (compactFields fields) := by
  induction fields with
  | nil => exact .cons (by decide) .nil
  | cons field rest ih =>
      obtain ⟨k, v⟩ := field
      exact .cons (by decide) (.append (quoted_visible k) (.cons (by decide)
        (.append (h k v (List.mem_cons_self ..))
          (ih fun k' v' hv => h k' v' (List.mem_cons_of_mem _ hv)))))

/-- The text of a value has no control characters. -/
theorem compact_visible (v : Json) : AllVisible v.compact := by
  induction v with
  | null => decide
  | bool b => cases b <;> decide
  | number n =>
      cases n with
      | int i => exact Decimal.integer_visible i
      | double bits => exact Decimal.double_visible bits
  | string s => exact quoted_visible s
  | array items ih =>
      cases items with
      | nil => exact .cons (by decide) (.cons (by decide) .nil)
      | cons v rest =>
          obtain ⟨hv, hrest⟩ := List.forall_mem_cons.mp ih
          exact .cons (by decide) (.append hv (compactItems_visible hrest))
  | object fields ih =>
      cases fields with
      | nil => exact .cons (by decide) (.cons (by decide) .nil)
      | cons field rest =>
          obtain ⟨k, v⟩ := field
          exact .cons (by decide) (.append (quoted_visible k) (.cons (by decide)
            (.append (ih k v (List.mem_cons_self ..))
              (compactFields_visible fun k' v' hv => ih k' v' (List.mem_cons_of_mem _ hv)))))

/-! ## Compact texts -/

/-- How a character stands in a JSON string: a quote or a backslash behind a
backslash, a control character as a letter or else as four digits, and any
other one as it is. -/
inductive Escapes : Char → List Char → Prop
  | quote : Escapes '"' ['\\', '"']
  | backslash : Escapes '\\' ['\\', '\\']
  | backspace : Escapes '\x08' ['\\', 'b']
  | formFeed : Escapes '\x0c' ['\\', 'f']
  | lineFeed : Escapes '\n' ['\\', 'n']
  | carriageReturn : Escapes '\r' ['\\', 'r']
  | tab : Escapes '\t' ['\\', 't']
  | control {c : Char} (hcontrol : c.toNat < 0x20) (hnamed : c ∉ ['\x08', '\x0c', '\n', '\r', '\t']) :
      Escapes c
        ['\\', 'u', '0', '0', Nat.digitChar (c.toNat / 16), Nat.digitChar (c.toNat % 16)]
  | plain {c : Char} (hvisible : 0x20 ≤ c.toNat) (hquote : c ≠ '"') (hbackslash : c ≠ '\\') :
      Escapes c [c]

/-- A string between quotes. -/
def Quotes (s : String) (text : List Char) : Prop :=
  ∃ parts, List.Forall₂ Escapes s.toList parts ∧ text = '"' :: (parts.flatten ++ ['"'])

/-- The JSON text of a value without blanks. -/
inductive Compact : Json → List Char → Prop
  | null : Compact .null "null".toList
  | bool (b : Bool) : Compact (.bool b) (toString b).toList
  | int (i : Int) : Compact (.number (.int i)) (toString i).toList
  | double (bits : UInt64) : Compact (.number (.double bits)) (Decimal.double bits)
  | string {s : String} {text : List Char} (h : Quotes s text) : Compact (.string s) text
  | array {items : List Json} {texts : List (List Char)} (h : List.Forall₂ Compact items texts) :
      Compact (.array items) ('[' :: ([','].intercalate texts ++ [']']))
  | object {fields : List (String × Json)} {keys texts : List (List Char)}
      (hkeys : List.Forall₂ Quotes (fields.map Prod.fst) keys)
      (hvalues : List.Forall₂ Compact (fields.map Prod.snd) texts) :
      Compact (.object fields)
        ('{' :: ([','].intercalate (List.zipWith (fun key text => key ++ ':' :: text) keys texts)
          ++ ['}']))

/-- A string stands for itself, any other value for its JSON text. -/
inductive Shows : Json → String → Prop
  | verbatim (s : String) : Shows (.string s) s
  | compact {v : Json} {text : String} (hother : ∀ s, v ≠ .string s) (h : Compact v text.toList) :
      Shows v text

theorem escapes_escape (c : Char) : Escapes c (escape c) := by
  unfold escape
  split_ifs with hquote hbackslash hbackspace hfeed hline hreturn htab hcontrol
  · exact hquote ▸ .quote
  · exact hbackslash ▸ .backslash
  · exact hbackspace ▸ .backspace
  · exact hfeed ▸ .formFeed
  · exact hline ▸ .lineFeed
  · exact hreturn ▸ .carriageReturn
  · exact htab ▸ .tab
  · exact .control hcontrol (by simp [*])
  · exact .plain (Nat.le_of_not_lt hcontrol) hquote hbackslash

theorem quotes_quoted (s : String) : Quotes s (quoted s) := by
  refine ⟨s.toList.map escape, ?_, ?_⟩
  · exact List.forall₂_map_right_iff.mpr (List.forall₂_same.mpr fun c _ => escapes_escape c)
  · rw [quoted, ← List.flatMap_def]
    congr 2
    induction s.toList with
    | nil => rfl
    | cons c cs ih => rw [escapeAll, ih, List.flatMap_cons]

theorem intercalate_cons (text : List Char) (texts : List (List Char)) :
    [','].intercalate (text :: texts) = text ++ texts.flatMap (',' :: ·) := by
  induction texts generalizing text with
  | nil => simp [List.intercalate]
  | cons next rest ih =>
      have hsplit : [','].intercalate (text :: next :: rest)
          = text ++ ',' :: [','].intercalate (next :: rest) := by simp [List.intercalate]
      rw [hsplit, ih, List.flatMap_cons]
      rfl

theorem compactItems_eq (items : List Json) :
    compactItems items = items.flatMap (fun v => ',' :: v.compact) ++ [']'] := by
  induction items with
  | nil => rfl
  | cons v rest ih =>
      rw [compactItems, ih, List.flatMap_cons]
      simp

theorem compactFields_eq (fields : List (String × Json)) :
    compactFields fields
      = fields.flatMap (fun field => ',' :: (quoted field.1 ++ ':' :: field.2.compact)) ++ ['}'] := by
  induction fields with
  | nil => rfl
  | cons field rest ih =>
      obtain ⟨k, v⟩ := field
      rw [compactFields, ih, List.flatMap_cons]
      simp

theorem toString_int (i : Int) : (toString i).toList = Decimal.integer i := by
  cases i with
  | ofNat n => exact Nat.toList_repr
  | negSucc n =>
      have hminus : toString (Int.negSucc n) = "-" ++ Nat.repr (n + 1) := rfl
      rw [hminus, String.toList_append, Nat.toList_repr]
      rfl

theorem compact_compact (v : Json) : Compact v v.compact := by
  induction v with
  | null => exact .null
  | bool b => cases b <;> exact .bool _
  | number n =>
      cases n with
      | int i =>
          have hint := Compact.int i
          rwa [toString_int] at hint
      | double bits => exact .double bits
  | string s => exact .string (quotes_quoted s)
  | array items ih =>
      have htexts : List.Forall₂ Compact items (items.map compact) :=
        List.forall₂_map_right_iff.mpr (List.forall₂_same.mpr ih)
      have harray := Compact.array htexts
      cases items with
      | nil => exact harray
      | cons v rest =>
          rw [List.map_cons, intercalate_cons, List.flatMap_map, List.append_assoc] at harray
          rwa [compact, compactItems_eq]
  | object fields ih =>
      have hkeys : List.Forall₂ Quotes (fields.map Prod.fst) (fields.map fun e => quoted e.1) :=
        List.forall₂_map_left_iff.mpr (List.forall₂_map_right_iff.mpr
          (List.forall₂_same.mpr fun e _ => quotes_quoted e.1))
      have htexts : List.Forall₂ Compact (fields.map Prod.snd) (fields.map fun e => e.2.compact) :=
        List.forall₂_map_left_iff.mpr (List.forall₂_map_right_iff.mpr
          (List.forall₂_same.mpr fun e he => ih e.1 e.2 he))
      have hobject := Compact.object hkeys htexts
      rw [List.zipWith_map, List.zipWith_self] at hobject
      cases fields with
      | nil => exact hobject
      | cons field rest =>
          obtain ⟨k, v⟩ := field
          rw [List.map_cons, intercalate_cons, List.flatMap_map, List.append_assoc,
            List.append_assoc] at hobject
          rwa [compact, compactFields_eq]

theorem shows_plain (v : Json) : Shows v v.plain := by
  cases v with
  | string s => exact .verbatim s
  | _ =>
      refine .compact nofun ?_
      rw [plain, render, String.toList_ofList]
      · exact compact_compact _
      · exact nofun

end Json

end Ensemble
