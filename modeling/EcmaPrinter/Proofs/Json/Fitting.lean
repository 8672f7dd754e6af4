/-
# What reading gives

A reading may fail; what is shown of it here is what it gives where it does not. The
members that an object is read by are among its members, so what holds of all of these
holds of what a reading is handed.

Every value that a text writes fits the exchange format, what is unreadable in it
apart: its integers have 64 bits and its doubles are finite. The lexer keeps the digits
of a number to 64 bits, and the parser only puts together what the lexer found.

Key definitions: `Gives`, `Lexeme.Fits`, `Parser.Fits`.
Key theorems: `gives_bind`, `gives_required`, `isFitting_bare`, `isFitting_of_parse?`.
-/
import EcmaPrinter.Proofs.Json.Places
import EcmaPrinter.Proofs.Numeral.Finite

namespace EcmaPrinter.Json

/-! ### Readings that may fail -/

/-- What a reading gives, if it gives anything, has a property. -/
def Gives {α : Type} (P : α → Prop) (reading : Option α) : Prop := ∀ a, reading = some a → P a

section Gives

variable {α β : Type} {P : β → Prop} {o o' : Option β}

theorem gives_none : Gives P none := nofun

theorem gives_some {b : β} : Gives P (some b) ↔ P b := by
  simp [Gives]

theorem gives_pure {b : β} : Gives P (pure b) ↔ P b := gives_some

/-- What two readings in a row give is what the second one gives. -/
theorem gives_bind {o : Option α} {f : α → Option β} :
    Gives P (o >>= f) ↔ Gives (fun a => Gives P (f a)) o := by
  cases o with
  | none => exact iff_of_true nofun nofun
  | some a => rw [gives_some]; exact Iff.rfl

theorem gives_map {o : Option α} {f : α → β} : Gives P (o.map f) ↔ Gives (fun a => P (f a)) o := by
  cases o with
  | none => exact iff_of_true nofun nofun
  | some a => rw [gives_some, Option.map_some, gives_some]

theorem Gives.orElse (h : Gives P o) (h' : o = none → Gives P o') : Gives P (o <|> o') := by
  cases o with
  | none => exact h' rfl
  | some b => exact h

theorem Gives.mono {Q : β → Prop} (h : Gives P o) (himp : ∀ b, P b → Q b) : Gives Q o :=
  fun b hb => himp b (h b hb)

theorem gives_ite {p : Prop} [Decidable p] (h : p → Gives P o) (h' : ¬ p → Gives P o') :
    Gives P (if p then o else o') := by
  split
  · exact h ‹_›
  · exact h' ‹_›

/-- What holds at the start and is kept by every step holds at the end. -/
theorem gives_foldlM {σ : Type} {Inv : σ → Prop} {step : σ → α → Option σ} {as : List α}
    (hstep : ∀ a ∈ as, ∀ s, Inv s → Gives Inv (step s a)) {s : σ} (hs : Inv s) :
    Gives Inv (as.foldlM step s) := by
  induction as generalizing s with
  | nil => exact gives_pure.mpr hs
  | cons a as ih =>
    rw [List.foldlM_cons, gives_bind]
    exact (hstep a List.mem_cons_self s hs).mono
      fun s' hs' => ih (fun b hb => hstep b (List.mem_cons_of_mem _ hb)) hs'

theorem gives_mapM {read : α → Option β} {as : List α} (h : ∀ a ∈ as, Gives P (read a)) :
    Gives (fun bs => ∀ b ∈ bs, P b) (as.mapM read) := by
  induction as with
  | nil => exact gives_pure.mpr (List.forall_mem_nil _)
  | cons a as ih =>
    simp only [List.mapM_cons, gives_bind, gives_pure]
    refine (h a List.mem_cons_self).mono fun b hb => ?_
    exact (ih fun a' ha' => h a' (List.mem_cons_of_mem _ ha')).mono
      fun bs hbs => List.forall_mem_cons.mpr ⟨hb, hbs⟩

end Gives

/-! ### Members -/

section Members

variable {α β : Type} {P : β → Prop} {ms : List (String × α)} {key : String} {read : α → Option β}

/-- What is found under a key is a member with that key. -/
theorem mem_of_find {value : α} (h : find [key] ms = .once value) : (key, value) ∈ ms := by
  unfold find at h
  split at h
  · cases h
  · rename_i m hm
    cases h
    have hmem : m ∈ ms.filter fun m => [key].contains m.1 := by
      rw [hm]
      exact List.mem_singleton.mpr rfl
    obtain ⟨hm, hkey⟩ := List.mem_filter.mp hmem
    rw [List.contains_iff_mem, List.mem_singleton] at hkey
    rw [← hkey]
    exact hm
  · cases h

theorem gives_required (h : ∀ value, (key, value) ∈ ms → Gives P (read value)) :
    Gives P (required ms key read) := by
  unfold required
  split
  · exact h _ (mem_of_find ‹_›)
  · exact gives_none

theorem gives_defaulted {default : β} (hdefault : P default)
    (h : ∀ value, (key, value) ∈ ms → Gives P (read value)) :
    Gives P (defaulted ms key default read) := by
  unfold defaulted defaultedAny
  split
  · exact gives_some.mpr hdefault
  · exact h _ (mem_of_find ‹_›)
  · exact gives_none

theorem gives_optional {test : β → Bool} {ms : List (String × Json)} {read : Json → Option β}
    (h : ∀ value, (key, value) ∈ ms → Gives (fun b => test b = true) (read value)) :
    Gives (fun b => b.all test = true) (optional ms key read) := by
  refine gives_defaulted rfl fun value hvalue => ?_
  unfold nullable
  split
  · exact gives_some.mpr rfl
  · exact gives_map.mpr (h _ hvalue)

/-- What is read from a record whose scalars are what a test asks for. -/
theorem gives_asRecord {test : Json → Bool} {slots : Option (List Slot)} {json : Json}
    {read : List (String × Json) → Option β} (hjson : json.everyScalar test = true)
    (h : ∀ ms, everyMember test ms = true → Gives P (read ms)) :
    Gives P (asRecord slots json >>= read) :=
  gives_bind.mpr fun ms hms => h ms (everyMember_of_asRecord hms hjson)

theorem gives_asList {read : Json → Option β} {json : Json}
    (h : ∀ items, json = .arr items → ∀ item ∈ items, Gives P (read item)) :
    Gives (fun bs => ∀ b ∈ bs, P b) (asList read json) := by
  unfold asList
  split
  · exact gives_mapM (h _ rfl)
  · exact gives_none

end Members

/-! ### Numbers -/

theorem takeDigits_lt : ∀ (cs : List Char) {n : Nat}, n < 2 ^ 64 → (takeDigits n cs).1 < 2 ^ 64
  | [], _, h => h
  | c :: cs, n, h => by
    rw [takeDigits]
    split
    · exact takeDigits_lt cs ‹_›
    · exact h

theorem isFitting_decimal {negative : Bool} {digits : Nat} {exponent : Int}
    (h : digits < 2 ^ 64) : (decimal negative digits exponent).everyScalar isFitting = true := by
  unfold decimal
  split
  · rename_i x hx
    exact Binary64.isFinite_ofDecimal? (by omega) hx
  · rfl

theorem isFitting_wholeNumber {negative : Bool} {digits left : Nat} (h : digits < 2 ^ 64) :
    (wholeNumber negative digits left).everyScalar isFitting = true := by
  unfold wholeNumber
  split
  · exact isFitting_decimal h
  · split
    · split
      · simp only [everyScalar, isFitting, Bool.and_eq_true, decide_eq_true_eq]
        omega
      · exact isFitting_decimal h
    · simp only [everyScalar, isFitting, Bool.and_eq_true, decide_eq_true_eq]
      omega

theorem isFitting_behindWhole {negative : Bool} {digits left : Nat} (h : digits < 2 ^ 64)
    (cs : List Char) :
    Gives (fun json => json.everyScalar isFitting = true)
      (behindWhole negative digits left cs) := by
  unfold behindWhole
  split
  · exact gives_some.mpr (isFitting_wholeNumber h)
  · refine gives_ite (fun _ => gives_none) fun _ => ?_
    simp only [gives_bind, gives_pure]
    exact fun _ _ => isFitting_decimal (takeDigits_lt _ h)
  · simp only [gives_bind, gives_pure]
    exact fun _ _ => isFitting_decimal h

theorem isFitting_unsignedNumber (negative : Bool) (cs : List Char) :
    Gives (fun json => json.everyScalar isFitting = true) (unsignedNumber negative cs) :=
  gives_ite (fun _ => gives_none)
    fun _ => isFitting_behindWhole (takeDigits_lt _ (by decide)) _

/-- Words and numbers fit the exchange format. -/
theorem isFitting_bare (cs : List Char) :
    Gives (fun json => json.everyScalar isFitting = true) (bare cs) := by
  have hnumber : Gives (fun json => json.everyScalar isFitting = true) (number cs) := by
    unfold number
    split <;> exact isFitting_unsignedNumber _ _
  unfold bare
  refine gives_ite (fun _ => gives_some.mpr rfl) fun _ => ?_
  refine gives_ite (fun _ => gives_some.mpr rfl) fun _ => ?_
  exact gives_ite (fun _ => gives_some.mpr rfl) fun _ => hnumber

/-! ### The lexer -/

/-- The value of the lexeme fits the exchange format. -/
def Lexeme.Fits : Lexeme → Prop
  | .scalar value => value.everyScalar isFitting = true
  | _ => True

namespace Lexer

theorem fits_between {found : List Lexeme} (h : ∀ l ∈ found, l.Fits) (c : Char) :
    Gives (fun lexer => ∀ l ∈ lexer.found, l.Fits) (between found c) := by
  have hcons {l : Lexeme} (hl : l.Fits) : ∀ l' ∈ l :: found, l'.Fits :=
    List.forall_mem_cons.mpr ⟨hl, h⟩
  unfold between
  repeat'
    first
    | refine gives_ite (fun _ => ?_) fun _ => ?_
    | exact gives_none
    | exact gives_some.mpr h
    | exact gives_some.mpr (hcons trivial)

/-- The lexer finds fitting values only. -/
theorem fits_step {lexer : Lexer} (h : ∀ l ∈ lexer.found, l.Fits) (c : Char) :
    Gives (fun lexer => ∀ l ∈ lexer.found, l.Fits) (lexer.step c) := by
  unfold step
  split
  · exact fits_between h c
  · refine gives_ite (fun _ => gives_some.mpr h) fun _ => ?_
    rw [gives_bind]
    refine (isFitting_bare _).mono fun value hvalue => fits_between ?_ c
    exact List.forall_mem_cons.mpr ⟨hvalue, h⟩
  · refine gives_ite (fun _ => gives_some.mpr (List.forall_mem_cons.mpr ⟨trivial, h⟩)) fun _ => ?_
    refine gives_ite (fun _ => gives_some.mpr h) fun _ => ?_
    exact gives_ite (fun _ => gives_none) fun _ => gives_some.mpr h
  · refine gives_ite (fun _ => gives_some.mpr h) fun _ => ?_
    exact gives_map.mpr fun _ _ => h
  · rw [gives_bind]
    exact fun _ _ => gives_ite (fun _ => gives_pure.mpr h) fun _ => gives_pure.mpr h

end Lexer

theorem fits_lexemes (text : List Char) :
    Gives (fun ls => ∀ l ∈ ls, l.Fits) (lexemes text) := by
  have hrun : Gives (fun lexer => ∀ l ∈ lexer.found, l.Fits)
      (text.foldlM Lexer.step (⟨.between, []⟩ : Lexer)) :=
    gives_foldlM (fun c _ _ h => Lexer.fits_step h c) (List.forall_mem_nil _)
  rw [lexemes, gives_bind]
  refine hrun.mono fun lexer h => ?_
  have hreverse {found : List Lexeme} (hfound : ∀ l ∈ found, l.Fits) :
      ∀ l ∈ found.reverse, l.Fits :=
    fun l hl => hfound l (List.mem_reverse.mp hl)
  unfold Lexer.finish
  split
  · exact gives_some.mpr (hreverse h)
  · rw [gives_map]
    refine (isFitting_bare _).mono fun value hvalue => hreverse ?_
    exact List.forall_mem_cons.mpr ⟨hvalue, h⟩
  · exact gives_none

/-! ### The parser -/

/-- What was read of an open array or object fits the exchange format. -/
def Frame.Fits : Frame → Prop
  | .items read => ∀ item ∈ read, item.everyScalar isFitting = true
  | .members read _ => ∀ m ∈ read, m.2.everyScalar isFitting = true

/-- What was read so far fits the exchange format. -/
def Parser.Fits : Parser → Prop
  | .going _ stack => ∀ frame ∈ stack, frame.Fits
  | .done value => value.everyScalar isFitting = true

theorem isFitting_ofMembers {members : List (Option String × Json)}
    (h : ∀ m ∈ members, m.2.everyScalar isFitting = true) :
    (ofMembers members).everyScalar isFitting = true := by
  have hmapM : Gives (fun ms => ∀ m ∈ ms, m.2.everyScalar isFitting = true)
      (members.mapM fun m => m.1.map fun key => (key, m.2)) :=
    gives_mapM fun m hm => gives_map.mpr fun _ _ => h m hm
  unfold ofMembers
  split
  · rename_i ms hms
    exact everyMember_iff.mpr (hmapM ms hms)
  · rfl

namespace Parser

variable {stack : List Frame} {json : Json}

theorem fits_deliver (h : ∀ frame ∈ stack, frame.Fits) (hjson : json.everyScalar isFitting = true) :
    (deliver json stack).Fits := by
  unfold deliver
  split
  · exact hjson
  all_goals
    obtain ⟨hframe, hstack⟩ := List.forall_mem_cons.mp h
    exact List.forall_mem_cons.mpr ⟨List.forall_mem_cons.mpr ⟨hjson, hframe⟩, hstack⟩

theorem fits_nested (h : json.everyScalar isFitting = true) :
    (nested stack json).everyScalar isFitting = true := by
  unfold nested
  split
  · exact h
  · rfl

theorem fits_value (h : ∀ frame ∈ stack, frame.Fits) {l : Lexeme} (hl : l.Fits) :
    Gives Fits (value stack l) := by
  unfold value
  split
  · exact gives_some.mpr (List.forall_mem_cons.mpr ⟨List.forall_mem_nil _, h⟩)
  · exact gives_some.mpr (List.forall_mem_cons.mpr ⟨List.forall_mem_nil _, h⟩)
  · exact gives_some.mpr (fits_deliver h rfl)
  · exact gives_some.mpr (fits_deliver h rfl)
  · exact gives_some.mpr (fits_deliver h hl)
  · exact gives_none

theorem fits_close (h : ∀ frame ∈ stack, frame.Fits) (l : Lexeme) :
    Gives Fits (close stack l) := by
  unfold close
  split
  · obtain ⟨hframe, hstack⟩ := List.forall_mem_cons.mp h
    refine gives_some.mpr (fits_deliver hstack (fits_nested (everyItem_iff.mpr ?_)))
    exact fun item hitem => hframe item (List.mem_reverse.mp hitem)
  · obtain ⟨hframe, hstack⟩ := List.forall_mem_cons.mp h
    refine gives_some.mpr (fits_deliver hstack (fits_nested (isFitting_ofMembers fun m hm => ?_)))
    exact hframe m (List.mem_reverse.mp hm)
  · exact gives_none

theorem fits_key (h : ∀ frame ∈ stack, frame.Fits) (l : Lexeme) : Gives Fits (key stack l) := by
  unfold key
  split
  · obtain ⟨hframe, hstack⟩ := List.forall_mem_cons.mp h
    exact gives_some.mpr (List.forall_mem_cons.mpr ⟨hframe, hstack⟩)
  · exact gives_none

theorem fits_afterComma (h : ∀ frame ∈ stack, frame.Fits) : Gives Fits (afterComma stack) := by
  unfold afterComma
  split
  · exact gives_some.mpr h
  · exact gives_some.mpr h
  · exact gives_none

/-- The parser puts together what fits. -/
theorem fits_step {p : Parser} (h : p.Fits) {l : Lexeme} (hl : l.Fits) : Gives Fits (p.step l) := by
  unfold step
  split
  · exact gives_none
  · exact fits_value h hl
  · exact fits_close h _
  · exact fits_value h hl
  · exact fits_close h _
  · exact fits_key h _
  · exact fits_key h _
  · exact gives_some.mpr h
  · exact gives_none
  · exact fits_afterComma h
  · exact fits_close h _

end Parser

/-- **A value that a text writes fits the exchange format.** -/
theorem isFitting_of_parse? {text : String} {json : Json} (h : parse? text = some json) :
    json.everyScalar isFitting = true := by
  have hparse : Gives (fun json => json.everyScalar isFitting = true) (parse? text) := by
    simp only [parse?, gives_bind]
    refine (fits_lexemes _).mono fun ls hls => ?_
    have hrun : Gives Parser.Fits (ls.foldlM Parser.step (.going .value [])) :=
      gives_foldlM (fun l hl _ h => Parser.fits_step h (hls l hl)) (List.forall_mem_nil _)
    refine hrun.mono fun p hp => ?_
    split
    · exact gives_some.mpr hp
    · exact gives_none
  exact hparse json h

end EcmaPrinter.Json
