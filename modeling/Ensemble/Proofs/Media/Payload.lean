import Ensemble.Media.Payload
import Ensemble.Proofs.Media.Base64
import Mathlib.Data.List.TakeWhile

/-!
# How payloads are spelled

`Spells` says which texts stand for some bytes: their spelling in base64
with blanks put in anywhere, bare or as a data URL with any media type that
has no comma. Decoding accepts these texts and no others, and what it gives
back is the plain spelling, the bytes and the media type
(`decode_eq_ok_iff`).
-/

namespace Ensemble.Payload

open Text

/-! ## Blanks -/

/-- A text with blanks put in anywhere. -/
inductive Spaced : List Char → List Char → Prop
  | nil : Spaced [] []
  | char {plain text : List Char} (c : Char) : Spaced plain text → Spaced (c :: plain) (c :: text)
  | blank {plain text : List Char} {c : Char} (hc : isBlank c = true) :
      Spaced plain text → Spaced plain (c :: text)

/-- The characters of a text that are no blanks. -/
def dense (cs : List Char) : List Char := cs.filter fun c => !isBlank c

theorem dense_append (cs ds : List Char) : dense (cs ++ ds) = dense cs ++ dense ds :=
  List.filter_append ..

theorem dense_eq_nil {cs : List Char} (h : ∀ c ∈ cs, isBlank c = true) : dense cs = [] := by
  refine List.filter_eq_nil_iff.mpr fun c hc => ?_
  rw [h c hc]
  decide

/-- If a text has no blanks of its own, spacing it is undone by leaving out all blanks. -/
theorem spaced_iff {plain text : List Char} (hplain : ∀ c ∈ plain, isBlank c = false) :
    Spaced plain text ↔ dense text = plain := by
  constructor
  · intro h
    induction h with
    | nil => rfl
    | char c _ ih =>
        obtain ⟨hc, hplain⟩ := List.forall_mem_cons.mp hplain
        rw [dense, List.filter_cons_of_pos (by rw [hc]; rfl)]
        exact congrArg (c :: ·) (ih hplain)
    | blank hc _ ih =>
        rw [dense, List.filter_cons_of_neg (by rw [hc]; decide)]
        exact ih hplain
  · rintro rfl
    induction text with
    | nil => exact .nil
    | cons c text ih =>
        cases hc : isBlank c with
        | true =>
            rw [dense, List.filter_cons_of_neg (by rw [hc]; decide)] at hplain ⊢
            exact .blank hc (ih hplain)
        | false =>
            rw [dense, List.filter_cons_of_pos (by rw [hc]; rfl)] at hplain ⊢
            exact .char c (ih (List.forall_mem_cons.mp hplain).2)

/-- Trimming takes blanks from both ends. -/
theorem exists_trimChars (cs : List Char) : ∃ before after,
    (∀ c ∈ before, isBlank c = true) ∧ (∀ c ∈ after, isBlank c = true) ∧
      cs = before ++ trimChars cs ++ after := by
  have hleft : cs = cs.takeWhile isBlank ++ trimLeft cs := List.takeWhile_append_dropWhile.symm
  have hright : (trimLeft cs).reverse
      = (trimLeft cs).reverse.takeWhile isBlank ++ (trimChars cs).reverse := by
    rw [trimChars, trimRight, List.reverse_reverse, List.takeWhile_append_dropWhile]
  refine ⟨cs.takeWhile isBlank, ((trimLeft cs).reverse.takeWhile isBlank).reverse,
    fun c hc => List.mem_takeWhile_imp hc,
    fun c hc => List.mem_takeWhile_imp (List.mem_reverse.mp hc), ?_⟩
  have hboth := congrArg List.reverse hright
  rw [List.reverse_reverse, List.reverse_append, List.reverse_reverse] at hboth
  rw [List.append_assoc, ← hboth]
  exact hleft

theorem dense_dropWhile (cs : List Char) : dense (cs.dropWhile isBlank) = dense cs := by
  have htaken : dense (cs.takeWhile isBlank) = [] :=
    dense_eq_nil fun c hc => List.mem_takeWhile_imp hc
  conv_rhs => rw [← cs.takeWhile_append_dropWhile, dense_append, htaken, List.nil_append]

theorem dense_trimRight (cs : List Char) : dense (trimRight cs) = dense cs := by
  have hreverse (ds : List Char) : dense ds.reverse = (dense ds).reverse := List.filter_reverse ..
  rw [trimRight, hreverse, dense_dropWhile, hreverse, List.reverse_reverse]

theorem dense_trimChars (cs : List Char) : dense (trimChars cs) = dense cs := by
  rw [trimChars, dense_trimRight, trimLeft, dense_dropWhile]

/-- Trimming at the end goes no further than a character that is no blank. -/
theorem trimRight_append {last : Char} (start content : List Char) (hlast : isBlank last = false) :
    trimRight (start ++ last :: content) = start ++ last :: trimRight content := by
  have hstop : (last :: start.reverse).dropWhile isBlank = last :: start.reverse :=
    List.dropWhile_cons_of_neg (by rw [hlast]; decide)
  have hreverse : (start ++ last :: content).reverse = content.reverse ++ last :: start.reverse := by
    simp
  rw [trimRight, trimRight, hreverse, List.dropWhile_append, hstop]
  split
  · rename_i hempty
    rw [List.isEmpty_iff.mp hempty]
    simp
  · simp

/-! ## Headers -/

theorem afterStart?_eq_some_iff {start cs rest : List Char} :
    afterStart? start cs = some rest ↔ cs = start ++ rest := by
  rw [afterStart?]
  constructor
  · intro h
    split at h
    · rename_i hstart
      obtain ⟨rest', rfl⟩ := List.isPrefixOf_iff_prefix.mp hstart
      rw [List.drop_left] at h
      rw [Option.some.inj h]
    · cases h
  · rintro rfl
    rw [if_pos (List.isPrefixOf_iff_prefix.mpr (List.prefix_append ..)), List.drop_left]

theorem beforeEnd?_eq_some_iff {ending cs rest : List Char} :
    beforeEnd? ending cs = some rest ↔ cs = rest ++ ending := by
  rw [beforeEnd?, Option.map_eq_some_iff]
  simp only [afterStart?_eq_some_iff]
  constructor
  · rintro ⟨rest, h, rfl⟩
    rw [← List.reverse_reverse cs, h, List.reverse_append, List.reverse_reverse]
  · rintro rfl
    exact ⟨rest.reverse, List.reverse_append, List.reverse_reverse _⟩

/-- The media type that a header names; an empty one counts as none. -/
def named? (mime : List Char) : Option String :=
  if mime.isEmpty then none else some (String.ofList mime)

/-- The text before the first comma and behind it. -/
theorem comma_split {cs before content : List Char} {c : Char} :
    cs.takeWhile (· ≠ ',') = before ∧ cs.dropWhile (· ≠ ',') = c :: content ↔
      ',' ∉ before ∧ c = ',' ∧ cs = before ++ ',' :: content := by
  constructor
  · rintro ⟨rfl, hdrop⟩
    have hcomma : c = ',' := by
      have hhead := List.head?_dropWhile_not (fun d : Char => decide (d ≠ ',')) cs
      rw [hdrop] at hhead
      simpa using hhead
    subst hcomma
    refine ⟨fun hmem => ?_, rfl, ?_⟩
    · simpa using List.mem_takeWhile_imp hmem
    · rw [← hdrop, List.takeWhile_append_dropWhile]
  · rintro ⟨hbefore, rfl, rfl⟩
    have hpos : ∀ d ∈ before, decide (d ≠ ',') = true := by
      intro d hd
      exact decide_eq_true fun heq => hbefore (heq ▸ hd)
    rw [List.takeWhile_append_of_pos hpos, List.dropWhile_append_of_pos hpos]
    simp

theorem getD_named? (mime : List Char) (other : String) :
    (named? mime).getD other = if mime = [] then other else String.ofList mime := by
  cases mime <;> rfl

/-- A data URL names a media type before the first comma, and any other text is content. -/
theorem splitHeader_eq_ok_iff {cs content : List Char} {mime? : Option String} :
    splitHeader cs = .ok (mime?, content) ↔
      (¬"data:".toList <+: cs ∧ mime? = none ∧ content = cs) ∨
        ∃ mime, ',' ∉ mime ∧ cs = "data:".toList ++ (mime ++ ";base64".toList ++ ',' :: content) ∧
          mime? = named? mime := by
  rw [splitHeader]
  cases hstart : afterStart? "data:".toList cs with
  | none =>
      have hbare : ∀ rest, cs ≠ "data:".toList ++ rest := fun rest hcs => by
        rw [afterStart?_eq_some_iff.mpr hcs] at hstart
        cases hstart
      constructor
      · intro h
        obtain ⟨rfl, rfl⟩ := Prod.mk.inj (Except.ok.inj h)
        exact .inl ⟨fun ⟨rest, hrest⟩ => hbare rest hrest.symm, rfl, rfl⟩
      · rintro (⟨-, rfl, rfl⟩ | ⟨mime, -, hcs, -⟩)
        · rfl
        · exact absurd hcs (hbare _)
  | some rest =>
      obtain rfl := afterStart?_eq_some_iff.mp hstart
      dsimp only
      constructor
      · intro h
        split at h
        · cases h
        · rename_i c content' hdrop
          obtain ⟨hcomma, -, hrest⟩ := comma_split.mp ⟨rfl, hdrop⟩
          split at h
          · cases h
          · rename_i mime hmime
            obtain ⟨rfl, rfl⟩ := Prod.mk.inj (Except.ok.inj h)
            rw [beforeEnd?_eq_some_iff.mp hmime] at hcomma hrest
            exact .inr ⟨mime, fun hmem => hcomma (List.mem_append_left _ hmem),
              congrArg _ hrest, rfl⟩
      · rintro (⟨hbare, -, -⟩ | ⟨mime, hcomma, hcs, rfl⟩)
        · exact absurd (List.prefix_append ..) hbare
        · have hcomma : ',' ∉ mime ++ ";base64".toList := by simpa using hcomma
          obtain ⟨htake, hdrop⟩ :=
            comma_split.mpr ⟨hcomma, rfl, List.append_cancel_left hcs⟩
          rw [htake, hdrop]
          dsimp only
          rw [beforeEnd?_eq_some_iff.mpr rfl]
          rfl

/-! ## Spellings of payloads -/

/-- The texts that stand for some bytes, with the media type that they give
them. A data URL may have blanks before it. -/
inductive Spells (bytes : List UInt8) : List Char → String → Prop
  | bare {text : List Char} (htext : Spaced (Base64.spelling bytes) text) :
      Spells bytes text (sniff bytes)
  | url {before mime text : List Char} (hbefore : ∀ c ∈ before, isBlank c = true)
      (hmime : ',' ∉ mime) (htext : Spaced (Base64.spelling bytes) text) :
      Spells bytes (before ++ "data:".toList ++ mime ++ ";base64,".toList ++ text)
        (if mime = [] then sniff bytes else String.ofList mime)

/-- The payload of the content behind a header. -/
def ofContent (mime? : Option String) (content : List Char) : Except PayloadFault Payload := do
  let base64 := String.ofList (dense content)
  if base64.isEmpty then throw .empty
  match Base64.decode (Text.encode base64) with
  | .error fault => throw (.base64 fault)
  | .ok bytes => return { mime := mime?.getD (sniff bytes), base64, bytes }

theorem decode_eq (text : String) :
    decode text = splitHeader (trimChars text.toList) >>= fun (mime?, content) =>
      ofContent mime? content := rfl

theorem ofContent_eq_ok_iff {content : List Char} {mime? : Option String} {p : Payload} :
    ofContent mime? content = .ok p ↔
      p.bytes ≠ [] ∧ p.base64 = String.ofList (Base64.spelling p.bytes) ∧
        Spaced (Base64.spelling p.bytes) content ∧ p.mime = mime?.getD (sniff p.bytes) := by
  rw [spaced_iff fun c => Base64.not_blank_of_mem_spelling, ofContent]
  constructor
  · intro h
    split at h
    · cases h
    rename_i hne
    split at h
    · cases h
    · rename_i bytes hbytes
      obtain rfl := Except.ok.inj h
      rw [Base64.decode_text_eq_ok_iff, String.toList_ofList] at hbytes
      refine ⟨?_, by rw [hbytes], hbytes, rfl⟩
      rintro rfl
      exact hne (by rw [hbytes]; rfl)
  · intro h
    obtain ⟨mime, base64, bytes⟩ := p
    dsimp only at h
    obtain ⟨hne, rfl, hdense, rfl⟩ := h
    have hempty : ¬(String.ofList (Base64.spelling bytes)).isEmpty = true := by
      simpa using Base64.spelling_ne_nil hne
    have hdecode := Base64.decode_text_eq_ok_iff.mpr
      (String.toList_ofList (l := Base64.spelling bytes))
    rw [hdense, if_neg hempty, hdecode]
    rfl

/-- No data URL is a spelling of its own, as there is no colon in base64. -/
theorem not_data_of_spaced {bytes : List UInt8} {cs : List Char}
    (h : Spaced (Base64.spelling bytes) cs) : ¬"data:".toList <+: cs := by
  rintro ⟨rest, rfl⟩
  have hdense := (spaced_iff fun c => Base64.not_blank_of_mem_spelling).mp h
  refine Base64.colon_not_mem_spelling bytes ?_
  rw [← hdense, dense_append]
  exact List.mem_append_left _ (by decide)

/-- Of a data URL the blanks around it are trimmed. -/
theorem trimChars_url {before : List Char} (mime text : List Char)
    (hbefore : ∀ c ∈ before, isBlank c = true) :
    trimChars (before ++ "data:".toList ++ mime ++ ";base64,".toList ++ text)
      = "data:".toList ++ (mime ++ ";base64".toList ++ ',' :: trimRight text) := by
  have hshape : before ++ "data:".toList ++ mime ++ ";base64,".toList ++ text
      = before ++ ("data:".toList ++ (mime ++ ";base64".toList) ++ ',' :: text) := by simp
  have hstart : ("data:".toList ++ (mime ++ ";base64".toList) ++ ',' :: text).dropWhile isBlank
      = "data:".toList ++ (mime ++ ";base64".toList) ++ ',' :: text :=
    List.dropWhile_cons_of_neg (by decide)
  rw [hshape, trimChars, trimLeft, List.dropWhile_append_of_pos hbefore, hstart,
    trimRight_append _ _ (by decide), List.append_assoc]

/-- Decoding accepts the spellings of payloads, and gives the plain one back. -/
theorem decode_eq_ok_iff {text : String} {p : Payload} :
    decode text = .ok p ↔ p.bytes ≠ [] ∧ p.base64 = String.ofList (Base64.spelling p.bytes) ∧
      Spells p.bytes text.toList p.mime := by
  have hspaced (cs : List Char) : Spaced (Base64.spelling p.bytes) cs
      ↔ dense cs = Base64.spelling p.bytes :=
    spaced_iff fun c => Base64.not_blank_of_mem_spelling
  rw [decode_eq, bind_eq_ok_iff]
  simp only [Prod.exists, splitHeader_eq_ok_iff, ofContent_eq_ok_iff]
  constructor
  · rintro ⟨mime?, content, hheader, hne, hbase, htext, hmime⟩
    refine ⟨hne, hbase, ?_⟩
    rw [hspaced] at htext
    rcases hheader with ⟨-, rfl, rfl⟩ | ⟨mime, hcomma, hcs, rfl⟩
    · rw [hmime]
      rw [dense_trimChars, ← hspaced] at htext
      exact .bare htext
    · obtain ⟨before, after, hbefore, hafter, htrim⟩ := exists_trimChars text.toList
      have hcontent : Spaced (Base64.spelling p.bytes) (content ++ after) := by
        rw [hspaced, dense_append, dense_eq_nil hafter, List.append_nil, htext]
      have hspells := Spells.url hbefore hcomma hcontent
      have hcs : before ++ "data:".toList ++ mime ++ ";base64,".toList ++ (content ++ after)
          = text.toList := by
        conv_rhs => rw [htrim, hcs]
        simp
      rwa [hcs, ← getD_named?, ← hmime] at hspells
  · rintro ⟨hne, hbase, h⟩
    obtain ⟨mime, base64, bytes⟩ := p
    dsimp only at hne hbase h hspaced ⊢
    generalize text.toList = cs at h ⊢
    cases h with
    | bare htext =>
        have htrimmed : Spaced (Base64.spelling bytes) (trimChars cs) := by
          rw [hspaced, dense_trimChars, ← hspaced]
          exact htext
        exact ⟨none, trimChars cs, .inl ⟨not_data_of_spaced htrimmed, rfl, rfl⟩, hne, hbase,
          htrimmed, rfl⟩
    | @url before mime text hbefore hmime htext =>
        have htrimmed : Spaced (Base64.spelling bytes) (trimRight text) := by
          rw [hspaced, dense_trimRight, ← hspaced]
          exact htext
        exact ⟨named? mime, trimRight text,
          .inr ⟨mime, hmime, trimChars_url mime text hbefore, rfl⟩, hne, hbase, htrimmed,
          (getD_named? ..).symm⟩

end Ensemble.Payload
