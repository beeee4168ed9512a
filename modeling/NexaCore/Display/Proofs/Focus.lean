import NexaCore.Display.WindowManager

/-!
# The focused window

The focus stays on a window that is visible, in the runs in which the topmost window that a
destroyed focus leaves behind is visible: `destroy` takes the topmost one without a look at
`visible`. Windows with one id can arise once `next_id` wraps; the first one is meant everywhere.
-/

namespace NexaCore.Display

open Misc List Option

variable {w : Window} {ws : List Window}

theorem topmost_spec (top : topmost ws = some w) : w ∈ ws ∧ ∀ x ∈ ws, x.z ≤ w.z := by
  induction ws generalizing w with
  | nil => cases top
  | cons first rest ih =>
    cases later : topmost rest with
    | none =>
      cases rest with
      | nil =>
        cases top
        simp [topmost]
      | cons => cases later
    | some best =>
      obtain ⟨mem, largest⟩ := ih later
      rw [topmost, later, elim_some, some_inj] at top
      subst top
      split
      · exact ⟨.tail _ mem, forall_mem_cons.mpr ⟨by assumption, largest⟩⟩
      · refine ⟨.head _, forall_mem_cons.mpr ⟨le_rfl, fun x inside => ?_⟩⟩
        exact (largest x inside).trans (by omega)

theorem topmost_filter (shown : ∀ w, topmost ws = some w → w.visible = true) :
    topmost (ws.filter (·.visible)) = topmost ws := by
  induction ws with
  | nil => rfl
  | cons first rest ih =>
    cases later : topmost rest with
    | none =>
      cases rest with
      | nil => simp [shown first rfl]
      | cons => cases later
    | some best =>
      rw [topmost, later, elim_some] at shown ⊢
      split at shown
      · rename_i above
        have same := (ih fun w top => by cases later.symm.trans top; exact shown _ rfl).trans later
        rw [filter_cons, if_pos above]
        split
        · rw [topmost, same, elim_some, if_pos above]
        · exact same
      · rename_i below
        rw [filter_cons, if_pos (shown _ rfl), if_neg below, topmost]
        cases visible : topmost (rest.filter (·.visible)) with
        | none => rfl
        | some best' =>
          have mem := (topmost_spec visible).1
          have highest := (topmost_spec later).2 best' (mem_of_mem_filter mem)
          rw [elim_some, if_neg (by omega)]

namespace WindowManager

variable {s s' : WindowManager} {id : UInt32}

/-- The first window with the id exists and is visible. -/
def Shown (ws : List Window) (id : UInt32) : Prop :=
  (ws.find? (·.id = id)).any (·.visible) = true

instance : Decidable (Shown ws id) := inferInstanceAs (Decidable (_ = _))

/-- The focused window, if any, exists and is visible. -/
def FocusShown (s : WindowManager) : Prop :=
  ∀ id, s.focus = some id → Shown s.windows id

/-- A new window has a new id, only visible windows are focused and only others hidden, and the
topmost window that a destroyed focus leaves behind is visible. -/
def Allowed (s : WindowManager) : Call → Prop
  | .createWindow _ _ _ _ => ∀ w ∈ s.windows, w.id ≠ s.nextId
  | .setFocus id => Shown s.windows id
  | .cycleFocus => ∀ w ∈ s.windows, w.visible = true → Shown s.windows w.id
  | .setVisible id visible => visible = false → s.focus ≠ some id
  | .destroy id => s.focus = some id → ∀ w ∈ topmost (s.windows.eraseP (·.id = id)),
    w.visible = true ∧ Shown (s.windows.eraseP (·.id = id)) w.id
  | _ => True

variable {first : Window} {other : UInt32}

theorem shown_cons_of_eq (here : first.id = id) :
    Shown (first :: ws) id ↔ first.visible = true := by
  simp [Shown, here]

theorem shown_cons_of_ne (apart : first.id ≠ id) : Shown (first :: ws) id ↔ Shown ws id := by
  simp [Shown, apart]

theorem shown_append {new : List Window} (fresh : ∀ w ∈ ws, w.id ≠ id) :
    Shown (ws ++ new) id ↔ Shown new id := by
  rw [Shown, find?_append, find?_eq_none.mpr (by simpa using fresh), none_or, Shown]

/-- A change of the first window with an id keeps what is visible elsewhere. -/
theorem shown_changeFirst {change : Window → Window} (keeps : ∀ w, (change w).id = w.id)
    (shows : other = id → ∀ w, w.visible = true → (change w).visible = true)
    (shown : Shown ws id) : Shown (changeFirst other change ws) id := by
  induction ws with
  | nil => exact shown
  | cons first rest ih =>
    rw [changeFirst]
    by_cases same : first.id = id
    · rw [shown_cons_of_eq same] at shown
      split
      · rename_i here
        rw [shown_cons_of_eq ((keeps first).trans same)]
        exact shows (here.symm.trans same) first shown
      · rwa [shown_cons_of_eq same]
    · rw [shown_cons_of_ne same] at shown
      split
      · rwa [shown_cons_of_ne (fun same' => same ((keeps first).symm.trans same'))]
      · rw [shown_cons_of_ne same]
        exact ih shown

theorem shown_eraseP (apart : other ≠ id) : Shown (ws.eraseP (·.id = other)) id ↔ Shown ws id := by
  induction ws with
  | nil => rfl
  | cons first rest ih =>
    by_cases here : first.id = other
    · rw [eraseP_cons_of_pos (by simpa using here), shown_cons_of_ne (here ▸ apart)]
    · rw [eraseP_cons_of_neg (by simpa using here)]
      by_cases same : first.id = id
      · rw [shown_cons_of_eq same, shown_cons_of_eq same]
      · rw [shown_cons_of_ne same, shown_cons_of_ne same, ih]

theorem focusShown_cycleFocus (allowed : s.Allowed .cycleFocus) : s.cycleFocus.2.FocusShown := by
  intro id focused
  have listed : ∃ p ∈ s.byZ, p.2 = id := by
    have bottom : s.byZ.head?.map (·.2) = some id → ∃ p ∈ s.byZ, p.2 = id := by
      intro found
      obtain ⟨p, first, same⟩ := map_eq_some_iff.mp found
      exact ⟨p, mem_of_head? first, same⟩
    simp only [cycleFocus] at focused
    split at focused
    · exact bottom focused
    cases before : s.focus with
    | none => exact bottom (by rwa [before] at focused)
    | some old =>
      rw [before, elim_some] at focused
      cases place : s.byZ.findIdx? (·.2 = old) with
      | none => exact bottom (by rwa [place] at focused)
      | some i =>
        rw [place, elim_some] at focused
        obtain ⟨p, there, same⟩ := map_eq_some_iff.mp focused
        exact ⟨p, mem_of_getElem? there, same⟩
  obtain ⟨w, ⟨mem, visible⟩, rfl⟩ :
      ∃ w, (w ∈ s.windows ∧ w.visible = true) ∧ w.id = id := by simpa [byZ] using listed
  exact allowed w mem visible

theorem focusShown_onWindow {α : Type} {act : Window → α × WindowManager} (shown : s.FocusShown)
    (acts : ∀ w, (act w).2.FocusShown) : (s.onWindow id act).2.FocusShown := by
  unfold onWindow
  split
  · exact shown
  · exact acts _

theorem focusShown_next {call : Call} (shown : s.FocusShown) (allowed : s.Allowed call) :
    (s.next call).FocusShown := by
  cases call with
  | createWindow x y width height =>
    rintro id ⟨⟩
    exact (shown_append allowed).mpr (by simp [Shown])
  | destroy other =>
    refine focusShown_onWindow shown fun _ id focused => ?_
    dsimp only at focused
    split at focused
    · rename_i own
      obtain ⟨w, top, rfl⟩ := map_eq_some_iff.mp focused
      exact (allowed own w top).2
    · rename_i apart
      have others : other ≠ id := by
        rintro rfl
        exact apart focused
      exact (shown_eraseP others).mpr (shown id focused)
  | moveTo | raise =>
    exact focusShown_onWindow shown fun _ id focused =>
      shown_changeFirst (fun _ => rfl) (fun _ _ visible => visible) (shown id focused)
  | setFocus other =>
    refine focusShown_onWindow shown fun _ id focused => ?_
    cases focused
    exact allowed
  | cycleFocus => exact focusShown_cycleFocus allowed
  | setVisible other visible =>
    intro id focused
    refine shown_changeFirst (fun _ => rfl) (fun same _ _ => ?_) (shown id focused)
    cases visible with
    | true => rfl
    | false => exact absurd (same ▸ focused) (allowed rfl)

/-- The focus stays on a visible window, and a destroyed focus goes to the topmost visible one. -/
theorem focus_stays_shown {calls : List Call} (start : s.FocusShown)
    (run : Run (system.restrict Allowed) s calls s') :
    s'.FocusShown ∧ ∀ id, s'.focus = some id → s'.Allowed (.destroy id) →
      (s'.next (.destroy id)).focus =
        (topmost ((s'.next (.destroy id)).windows.filter (·.visible))).map (·.id) := by
  have shown : s'.FocusShown := run.invariant FocusShown (fun _ _ _ shown step => by
    rw [step.2]
    exact focusShown_next shown step.1) start
  refine ⟨shown, fun id focused allowed => ?_⟩
  simp only [next, destroy, onWindow]
  split
  · rename_i missing
    have found := shown id focused
    rw [Shown, missing] at found
    cases found
  · rw [topmost_filter fun w top => (allowed focused w top).1]
    exact if_pos focused

instance (s : WindowManager) (call : Call) : Decidable (s.Allowed call) :=
  match call with
  | .createWindow _ _ _ _ => inferInstanceAs (Decidable (∀ w ∈ _, _))
  | .setFocus _ => inferInstanceAs (Decidable (Shown _ _))
  | .cycleFocus => inferInstanceAs (Decidable (∀ w ∈ _, _ → _))
  | .setVisible _ _ => inferInstanceAs (Decidable (_ → _))
  | .destroy _ => inferInstanceAs (Decidable (_ → ∀ w ∈ topmost _, _ ∧ _))
  | .moveTo _ _ _ | .raise _ => inferInstanceAs (Decidable True)

/-- A screen without windows. -/
def blank : WindowManager := { screen := ⟨0, 0, 800, 600⟩ }

def firstHidden : List Call :=
  [.createWindow 0 0 9 9, .createWindow 0 0 9 9, .createWindow 0 0 9 9, .setVisible 0 false]

/-- With the third window destroyed, the second one has the focus. -/
theorem focus_stays_shown_destroyed : ∃ s s', Run (system.restrict Allowed) blank firstHidden s ∧
    system.restrict Allowed s (.destroy 2) s' ∧ s'.focus = some 1 ∧ s'.FocusShown ∧
    s'.focus = (topmost (s'.windows.filter (·.visible))).map (·.id) := by
  have run : Run (system.restrict Allowed) blank firstHidden (firstHidden.foldl next blank) :=
    .cons ⟨by decide, rfl⟩ (.cons ⟨by decide, rfl⟩ (.cons ⟨by decide, rfl⟩
      (.single ⟨by decide, rfl⟩)))
  have start : blank.FocusShown := by rintro _ ⟨⟩
  have allowed : (firstHidden.foldl next blank).Allowed (.destroy 2) := by decide
  exact ⟨_, _, run, ⟨allowed, rfl⟩, rfl, (focus_stays_shown start (run.snoc ⟨allowed, rfl⟩)).1,
    (focus_stays_shown start run).2 2 rfl allowed⟩

/-- The topmost window is hidden while another one has the focus, and gets it with that one gone. -/
theorem focus_lands_on_hidden : ∃ s, Run system blank
    [.createWindow 0 0 9 9, .createWindow 0 0 9 9, .setVisible 0 false, .destroy 1] s ∧
    s.focus = some 0 ∧ ¬s.FocusShown := by
  refine ⟨_, .cons rfl (.cons rfl (.cons rfl (.single rfl))), rfl, fun shown => ?_⟩
  exact absurd (shown 0 rfl) (by decide)

end WindowManager

end NexaCore.Display
