import Mathlib.Data.List.Chain
import ConstraintNet.Token

/-!
# Words and delimiters

A text is cut at its delimiters. Each delimiter is a piece of its own, and what stands between
two of them is a word, if it is not empty. Each word is one token, and a text is scanned piece
by piece, so that blanks beside a delimiter make no difference.
-/

set_option autoImplicit false

namespace ConstraintNet.Token

inductive Delimits : Char → List Token → Prop
  | blank {c : Char} (h : Text.isBlank c) : Delimits c []
  | openParen : Delimits '(' [.openParen]
  | closeParen : Delimits ')' [.closeParen]
  | operator (op : Operator) : Delimits op.char [.operator op]

theorem ofDelimiter?_eq_some_iff {c : Char} {tokens : List Token} :
    ofDelimiter? c = some tokens ↔ Delimits c tokens := by
  constructor
  · intro h
    unfold ofDelimiter? at h
    split at h
    · rename_i hblank
      cases h
      exact .blank hblank
    · split at h
      · rename_i hc
        cases h
        exact hc ▸ .openParen
      · split at h
        · rename_i hc
          cases h
          exact hc ▸ .closeParen
        · obtain ⟨op, hop, rfl⟩ := Option.map_eq_some_iff.mp h
          rw [Operator.ofChar?_eq_some_iff.mp hop]
          exact .operator op
  · intro h
    cases h with
    | blank h => exact if_pos h
    | openParen | closeParen => rfl
    | operator op => cases op <;> rfl

theorem ofDelimiter?_eq_none_iff {c : Char} :
    ofDelimiter? c = none ↔ ∀ tokens, ¬ Delimits c tokens := by
  simp only [Option.eq_none_iff_forall_ne_some, ne_eq, ofDelimiter?_eq_some_iff]

/-- A word is not empty, and no character in it is a delimiter. -/
structure IsWord (cs : List Char) : Prop where
  nonempty : cs ≠ []
  undelimited : ∀ c ∈ cs, ∀ tokens, ¬ Delimits c tokens

theorem isWord_iff {cs : List Char} :
    IsWord cs ↔ cs ≠ [] ∧ cs.all fun c => (ofDelimiter? c).isNone := by
  simp only [List.all_eq_true, Option.isNone_iff_eq_none, ofDelimiter?_eq_none_iff]
  exact ⟨fun h => ⟨h.nonempty, h.undelimited⟩, fun h => ⟨h.1, h.2⟩⟩

instance {cs : List Char} : Decidable (IsWord cs) := decidable_of_iff _ isWord_iff.symm

variable {cs : List Char} {c : Char} {s blanks : String}

theorem scan_append_delimiter (s t : String) {tokens : List Token} (hc : Delimits c tokens) :
    scan (s ++ String.singleton c ++ t) = scan s ++ tokens ++ scan t := by
  have h : scanFrom [] (s.toList ++ c :: t.toList) =
      scanFrom [] s.toList ++ tokens ++ scanFrom [] t.toList :=
    scanFrom_append (ofDelimiter?_eq_some_iff.mpr hc)
  simpa [scan] using h

theorem scanFrom_word (h : IsWord cs) : scanFrom [] cs = [ofWord cs] := by
  rw [scanFrom_of_no_delimiter fun c hc => ofDelimiter?_eq_none_iff.mpr (h.undelimited c hc)]
  exact if_neg h.nonempty

theorem ofWord_of_finite {value : Float} (hr : Decimal.read? cs = some value)
    (hf : value.isFinite) : ofWord cs = .number value := by
  simp only [ofWord, hr]
  exact if_pos hf

theorem ofWord_of_not_finite (h : ∀ value, Decimal.read? cs = some value → ¬ value.isFinite) :
    ofWord cs = .identifier (String.ofList cs) := by
  unfold ofWord
  split
  · rename_i value hr
    exact if_neg (h value hr)
  · rfl

theorem scan_blank_append (hb : Text.isBlankText blanks) (t : String) :
    scan (blanks ++ t) = scan t := by
  have hscan (bs : List Char) (hbs : bs.all Text.isBlank) :
      scanFrom [] (bs ++ t.toList) = scanFrom [] t.toList := by
    induction bs with
    | nil => rfl
    | cons b bs ih =>
      rw [List.all_cons, Bool.and_eq_true] at hbs
      have hfirst : scanFrom [] ([] ++ b :: (bs ++ t.toList)) =
          scanFrom [] [] ++ [] ++ scanFrom [] (bs ++ t.toList) :=
        scanFrom_append (ofDelimiter?_eq_some_iff.mpr (.blank hbs.1))
      exact hfirst.trans (ih hbs.2)
  rw [scan, String.toList_append]
  exact hscan blanks.toList hb

theorem scan_of_isBlankText (hb : Text.isBlankText blanks) : scan blanks = [] := by
  have h := scan_blank_append hb ""
  rwa [String.append_empty] at h

theorem scan_append_blank (s : String) (hb : Text.isBlankText blanks) :
    scan (s ++ blanks) = scan s := by
  cases hbs : blanks.toList with
  | nil =>
    rw [String.toList_eq_nil_iff.mp hbs, String.append_empty]
  | cons b bs =>
    have hall := hb
    rw [Text.isBlankText, hbs, List.all_cons, Bool.and_eq_true] at hall
    have hcut : blanks = String.singleton b ++ String.ofList bs := by
      rw [← String.toList_inj, hbs]
      simp
    have hrest : Text.isBlankText (String.ofList bs) := by simpa [Text.isBlankText] using hall.2
    rw [hcut, ← String.append_assoc, scan_append_delimiter s _ (.blank hall.1),
      scan_of_isBlankText hrest, List.append_nil, List.append_nil]

inductive Piece where
  | word (cs : List Char)
  | delimiter (c : Char)

namespace Piece

def chars : Piece → List Char
  | .word cs => cs
  | .delimiter c => [c]

def tokens : Piece → List Token
  | .word cs => [ofWord cs]
  | .delimiter c => (ofDelimiter? c).getD []

def Sound : Piece → Prop
  | .word cs => IsWord cs
  | .delimiter c => ∃ tokens, Delimits c tokens

def Apart : Piece → Piece → Prop
  | .word _, .word _ => False
  | .word _, .delimiter _ | .delimiter _, _ => True

end Piece

structure Cut (cs : List Char) (pieces : List Piece) : Prop where
  whole : pieces.flatMap Piece.chars = cs
  sound : ∀ p ∈ pieces, p.Sound
  apart : pieces.IsChain Piece.Apart

theorem Cut.tail {p : Piece} {pieces : List Piece} (h : Cut cs (p :: pieces)) :
    Cut (pieces.flatMap Piece.chars) pieces :=
  ⟨rfl, fun q hq => h.sound q (List.mem_cons_of_mem p hq), h.apart.tail⟩

theorem Cut.cons {p : Piece} {pieces : List Piece} (h : Cut cs pieces) (hp : p.Sound)
    (hapart : ∀ q ∈ pieces.head?, p.Apart q) : Cut (p.chars ++ cs) (p :: pieces) where
  whole := by rw [List.flatMap_cons, h.whole]
  sound := List.forall_mem_cons.mpr ⟨hp, h.sound⟩
  apart := List.isChain_cons.mpr ⟨hapart, h.apart⟩

/-- A character that is no delimiter belongs to the word that it stands in front of, and is
a word of its own where there is none. -/
theorem Cut.exists_cons {pieces : List Piece} (h : Cut cs pieces)
    (hc : ∀ tokens, ¬ Delimits c tokens) : ∃ pieces', Cut (c :: cs) pieces' := by
  have hword : IsWord [c] := ⟨List.cons_ne_nil c [], List.forall_mem_singleton.mpr hc⟩
  rcases pieces with _ | ⟨w | d, pieces⟩
  · exact ⟨_, h.cons (p := .word [c]) hword fun _ hq => by cases hq⟩
  · obtain ⟨hhead, -⟩ := List.isChain_cons.mp h.apart
    have hw : IsWord w := h.sound _ List.mem_cons_self
    have hlonger : IsWord (c :: w) :=
      ⟨List.cons_ne_nil c w, List.forall_mem_cons.mpr ⟨hc, hw.undelimited⟩⟩
    have hcut := h.tail.cons (p := .word (c :: w)) hlonger fun q hq => by
      cases q with
      | word => exact hhead _ hq
      | delimiter => trivial
    rw [← h.whole]
    exact ⟨_, hcut⟩
  · exact ⟨_, h.cons (p := .word [c]) hword fun q hq => by cases hq; trivial⟩

theorem exists_cut (cs : List Char) : ∃ pieces, Cut cs pieces := by
  induction cs with
  | nil => exact ⟨[], rfl, List.forall_mem_nil _, .nil⟩
  | cons c cs ih =>
    obtain ⟨pieces, h⟩ := ih
    by_cases hc : ∃ tokens, Delimits c tokens
    · exact ⟨_, h.cons (p := .delimiter c) hc fun _ _ => trivial⟩
    · exact h.exists_cons (not_exists.mp hc)

theorem Cut.scan {pieces : List Piece} (h : Cut cs pieces) :
    scanFrom [] cs = pieces.flatMap Piece.tokens := by
  have hdelimiter {d : Char} (hd : ∃ tokens, Delimits d tokens) (before after : List Char) :
      scanFrom [] (before ++ d :: after) =
        scanFrom [] before ++ Piece.tokens (.delimiter d) ++ scanFrom [] after := by
    obtain ⟨tokens, hd⟩ := hd
    have hsome := ofDelimiter?_eq_some_iff.mpr hd
    rw [scanFrom_append hsome, Piece.tokens, hsome]
    rfl
  induction pieces generalizing cs with
  | nil =>
    rw [← h.whole]
    rfl
  | cons p pieces ih =>
    have hrest := ih h.tail
    have hp := h.sound p List.mem_cons_self
    rw [← h.whole, List.flatMap_cons, List.flatMap_cons]
    cases p with
    | delimiter d =>
      rw [← hrest]
      exact hdelimiter hp [] _
    | word w =>
      rcases pieces with _ | ⟨_ | d, pieces⟩
      · rw [List.flatMap_nil, List.append_nil]
        exact scanFrom_word hp
      · exact absurd h.apart.rel id
      · -- A delimiter ends the word, and what is scanned from it on is known.
        have hd := h.tail.sound _ List.mem_cons_self
        have hend := hdelimiter hd [] (pieces.flatMap Piece.chars)
        rw [← hrest]
        refine (hdelimiter hd w _).trans ?_
        rw [scanFrom_word hp, List.append_assoc]
        exact congrArg _ hend.symm

inductive Scanned : Token → Prop
  | number {w : List Char} {value : Float} (hw : IsWord w) (hr : Decimal.read? w = some value)
    (hf : value.isFinite) : Scanned (.number value)
  | identifier {w : List Char} (hw : IsWord w) (h : ofWord w = .identifier (String.ofList w)) :
    Scanned (.identifier (String.ofList w))
  | openParen : Scanned .openParen
  | closeParen : Scanned .closeParen
  | operator (op : Operator) : Scanned (.operator op)

theorem IsWord.scanned {w : List Char} (hw : IsWord w) : Scanned (ofWord w) := by
  by_cases h : ∃ value, Decimal.read? w = some value ∧ value.isFinite
  · obtain ⟨value, hr, hf⟩ := h
    rw [ofWord_of_finite hr hf]
    exact .number hw hr hf
  · have hname := ofWord_of_not_finite fun value hr hf => h ⟨value, hr, hf⟩
    rw [hname]
    exact .identifier hw hname

theorem Delimits.scanned {tokens : List Token} (hc : Delimits c tokens) :
    ∀ token ∈ tokens, Scanned token := by
  cases hc with
  | blank => exact List.forall_mem_nil _
  | openParen => exact List.forall_mem_singleton.mpr .openParen
  | closeParen => exact List.forall_mem_singleton.mpr .closeParen
  | operator op => exact List.forall_mem_singleton.mpr (.operator op)

theorem scanned_of_mem_scan {token : Token} (h : token ∈ scan s) : Scanned token := by
  obtain ⟨pieces, hcut⟩ := exists_cut s.toList
  rw [scan, hcut.scan, List.mem_flatMap] at h
  obtain ⟨p, hp, htoken⟩ := h
  have hsound := hcut.sound p hp
  cases p with
  | word w =>
    rw [List.mem_singleton.mp htoken]
    exact IsWord.scanned hsound
  | delimiter c =>
    obtain ⟨tokens, hc⟩ := hsound
    rw [Piece.tokens, ofDelimiter?_eq_some_iff.mpr hc, Option.getD_some] at htoken
    exact hc.scanned token htoken

/-- A delimiter splits the scan of a text in two, and a word is one token: a number if it reads
as a finite one, an identifier otherwise. So a text is scanned piece by piece, however it is cut
into words and delimiters, and it can be cut. Blanks beside a delimiter make no difference. -/
theorem scan_part_by_part :
    (∀ (s t : String) (c : Char) (tokens : List Token), Delimits c tokens →
      scan (s ++ String.singleton c ++ t) = scan s ++ tokens ++ scan t) ∧
    (∀ w : String, IsWord w.toList →
      (∀ value, Decimal.read? w.toList = some value → value.isFinite →
        scan w = [.number value]) ∧
      ((∀ value, Decimal.read? w.toList = some value → ¬ value.isFinite) →
        scan w = [.identifier w])) ∧
    (∀ s : String, (∃ pieces, Cut s.toList pieces) ∧
      ∀ pieces, Cut s.toList pieces → scan s = pieces.flatMap Piece.tokens) ∧
    ∀ (s t blanks : String) (c : Char) (tokens : List Token), Delimits c tokens →
      Text.isBlankText blanks →
      scan (s ++ blanks ++ String.singleton c ++ t) = scan (s ++ String.singleton c ++ t) ∧
      scan (s ++ String.singleton c ++ blanks ++ t) = scan (s ++ String.singleton c ++ t) := by
  refine ⟨fun s t c tokens hc => scan_append_delimiter s t hc, fun w hw => ?_, fun s => ?_, ?_⟩
  · have hscan : scan w = [ofWord w.toList] := scanFrom_word hw
    constructor
    · intro value hr hf
      rw [hscan, ofWord_of_finite hr hf]
    · intro h
      rw [hscan, ofWord_of_not_finite h, String.ofList_toList]
  · exact ⟨exists_cut s.toList, fun pieces h => h.scan⟩
  · intro s t blanks c tokens hc hb
    constructor
    · rw [scan_append_delimiter _ _ hc, scan_append_delimiter _ _ hc, scan_append_blank s hb]
    · rw [String.append_assoc, scan_append_delimiter _ _ hc, scan_append_delimiter _ _ hc,
        scan_blank_append hb t]

theorem scan_part_by_part_product :
    Delimits '*' [.operator .mul] ∧ IsWord "#box.width".toList ∧ IsWord "0.50".toList ∧
      scan ("#box.width" ++ " " ++ String.singleton '*' ++ "0.50") =
        [.identifier "#box.width", .operator .mul, .number 0.5] := by
  obtain ⟨happend, hword, -, hblank⟩ := scan_part_by_part
  have hstar : Delimits '*' [.operator .mul] := .operator .mul
  have hname : IsWord "#box.width".toList := by decide
  have hnumeral : IsWord "0.50".toList := by decide
  have hunread : Decimal.read? "#box.width".toList = none := by decide +kernel
  have hread : Decimal.read? "0.50".toList = some 0.5 := by decide +kernel
  have hfinite : (0.5 : Float).isFinite := by decide +kernel
  have hidentifier : scan "#box.width" = [.identifier "#box.width"] := by
    refine (hword _ hname).2 fun value hvalue => ?_
    rw [hunread] at hvalue
    cases hvalue
  refine ⟨hstar, hname, hnumeral, ?_⟩
  rw [(hblank _ _ " " _ _ hstar (by decide)).1, happend _ _ _ _ hstar, hidentifier,
    (hword _ hnumeral).1 _ hread hfinite]
  rfl

end ConstraintNet.Token
