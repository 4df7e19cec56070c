import Mathlib.Logic.Relation
import Scenograph.Proofs.Composition.Acyclic

namespace Scenograph

inductive Mark where
  | unvisited
  | inProgress
  | done
  deriving DecidableEq, Repr

inductive Verdict where
  | acyclic
  | closes (id : Nat) (label : String)
  | outOfRange (id : Nat)
  deriving DecidableEq, Repr

namespace Verdict

def fault? : Verdict → Option Fault
  | .closes id label => some (.structural (.node id) (.edgeClosesCycle label))
  | _ => none

def ofResult : Except (Nat × String) (List Nat) → Verdict
  | .ok _ => .acyclic
  | .error (id, label) => .closes id label

end Verdict

structure Sweep where
  start : Nat
  marks : List Mark
  frames : List (Nat × Nat)
  deriving DecidableEq, Repr

namespace Sweep

def initial (g : Graph) : Sweep :=
  ⟨0, List.replicate g.objects.length .unvisited, []⟩

def enter (s : Sweep) (id : Nat) (e : Edge) : Except Verdict Sweep :=
  match s.marks[e.target]? with
  | none => .error (.outOfRange e.target)
  | some .inProgress => .error (.closes id e.label)
  | some .done => .ok s
  | some .unvisited =>
      .ok { s with marks := s.marks.set e.target .inProgress, frames := (e.target, 0) :: s.frames }

def step (g : Graph) (s : Sweep) : Except Verdict Sweep :=
  match s.frames with
  | [] =>
      if s.start < g.objects.length then
        match s.marks[s.start]? with
        | none => .error (.outOfRange s.start)
        | some .unvisited =>
            .ok ⟨s.start + 1, s.marks.set s.start .inProgress, [(s.start, 0)]⟩
        | some _ => .ok { s with start := s.start + 1 }
      else .error .acyclic
  | (id, next) :: frames =>
      match g.objects[id]?, s.marks[id]? with
      | some o, some _ =>
          match o.edges[next]? with
          | some e => enter { s with frames := (id, next + 1) :: frames } id e
          | none => .ok { s with marks := s.marks.set id .done, frames }
      | _, _ => .error (.outOfRange id)

def Leaps (g : Graph) : Sweep → Sweep → Prop :=
  Relation.ReflTransGen fun s s' => s.step g = .ok s'

def Halts (g : Graph) (s : Sweep) (v : Verdict) : Prop :=
  ∃ s', s.Leaps g s' ∧ s'.step g = .error v

variable {g : Graph} {s s' : Sweep}

theorem Halts.of_leaps {v : Verdict} (h : s.Leaps g s') (hs : s'.Halts g v) : s.Halts g v := by
  obtain ⟨last, hlast, hv⟩ := hs
  exact ⟨last, h.trans hlast, hv⟩

theorem Halts.unique {v w : Verdict} (hv : s.Halts g v) (hw : s.Halts g w) : v = w := by
  obtain ⟨last, hlast, hv⟩ := hv
  induction hlast using Relation.ReflTransGen.head_induction_on with
  | refl =>
      obtain ⟨last', hlast', hw⟩ := hw
      cases hlast'.cases_head with
      | inl heq =>
          subst heq
          exact Except.error.inj (hv.symm.trans hw)
      | inr hnext =>
          obtain ⟨next, hnext, _⟩ := hnext
          cases hv.symm.trans hnext
  | head hstep _ ih =>
      obtain ⟨last', hlast', hw⟩ := hw
      cases hlast'.cases_head with
      | inl heq =>
          subst heq
          cases hstep.symm.trans hw
      | inr hnext =>
          obtain ⟨next, hnext, hrest⟩ := hnext
          cases Except.ok.inj (hstep.symm.trans hnext)
          exact ih ⟨last', hrest, hw⟩

end Sweep

namespace Graph

variable {g : Graph}

def EdgesPresent (g : Graph) : Prop :=
  ∀ i, ∀ e ∈ g.edgesOf i, e.target < g.objects.length

def Cyclic (g : Graph) : Prop :=
  ∃ i, Relation.TransGen g.Leads i i

def ClosesCycle (g : Graph) (id : Nat) (label : String) : Prop :=
  ∃ e ∈ g.edgesOf id, e.label = label ∧ Relation.ReflTransGen g.Leads e.target id

theorem edgesPresent_of_objects (h : ∀ i o, g.objects[i]? = some o → g.objectFault? o i = none) :
    g.EdgesPresent := by
  intro i e he
  cases ho : g.objects[i]? with
  | none => simp [edgesOf, ho] at he
  | some o =>
      rw [edgesOf_some ho] at he
      have hedge := (objectFault?_eq_none.1 (h i o ho)).1 e he
      obtain ⟨target, htarget, _⟩ := edgeFlaw?_eq_none.1 hedge
      exact (List.getElem?_eq_some_iff.1 htarget).1

theorem ClosesCycle.cyclic {id : Nat} {label : String} (h : g.ClosesCycle id label) :
    g.Cyclic := by
  obtain ⟨e, he, _, hback⟩ := h
  exact ⟨id, .head' (leads_iff.2 ⟨e, he, rfl⟩) hback⟩

theorem not_cyclic_of_ends (h : ∀ i, g.Ends i) : ¬ g.Cyclic := by
  obtain ⟨height, hheight⟩ := exists_height h
  have hfalls : ∀ i j, Relation.TransGen g.Leads i j → height j < height i := by
    intro i j hij
    induction hij with
    | single hlead =>
        obtain ⟨e, he, rfl⟩ := leads_iff.1 hlead
        exact hheight i e he
    | tail _ hlead ih =>
        obtain ⟨e, he, rfl⟩ := leads_iff.1 hlead
        exact (hheight _ e he).trans ih
  rintro ⟨i, hi⟩
  exact absurd (hfalls i i hi) (Nat.lt_irrefl _)

def Chained (g : Graph) : List (Nat × List Edge) → Prop
  | [] => True
  | (i, rest) :: frames =>
      rest ⊆ g.edgesOf i ∧ (∀ k ∈ frames.map (·.1), Relation.TransGen g.Leads k i)
        ∧ g.Chained frames

theorem Chained.advance {i : Nat} {e : Edge} {rest : List Edge} {frames : List (Nat × List Edge)}
    (h : g.Chained ((i, e :: rest) :: frames)) : g.Chained ((i, rest) :: frames) :=
  ⟨fun _ hd => h.1 (List.mem_cons_of_mem _ hd), h.2⟩

theorem Chained.push {i : Nat} {e : Edge} {rest : List Edge} {frames : List (Nat × List Edge)}
    (h : g.Chained ((i, e :: rest) :: frames)) :
    g.Chained ((e.target, g.edgesOf e.target) :: (i, rest) :: frames) := by
  have hlead : g.Leads i e.target := leads_iff.2 ⟨e, h.1 (List.mem_cons_self ..), rfl⟩
  refine ⟨fun _ hd => hd, fun k hk => ?_, h.advance⟩
  rcases List.mem_cons.1 hk with rfl | hk
  · exact .single hlead
  · exact (h.2.1 k hk).tail hlead

theorem findCycle_error {touched : List Nat} {frames : List (Nat × List Edge)} {id : Nat}
    {label : String} (h : g.findCycle touched frames = .error (id, label))
    (hframes : g.Chained frames) : g.ClosesCycle id label := by
  fun_induction findCycle g touched frames with
  | case1 touched => cases h
  | case2 touched i frames ih => exact ih h hframes.2.2
  | case3 touched i e rest frames hcycle =>
      cases h
      refine ⟨e, hframes.1 (List.mem_cons_self ..), rfl, ?_⟩
      rcases hcycle with hself | hbelow
      · rw [hself]
      · exact (hframes.2.1 _ hbelow).to_reflTransGen
  | case4 touched i e rest frames _ _ ih => exact ih h hframes.advance
  | case5 touched i e rest frames _ _ ih => exact ih h hframes.push

theorem findCycleFrom_error {touched starts : List Nat} {id : Nat} {label : String}
    (h : g.findCycleFrom touched starts = .error (id, label)) : g.ClosesCycle id label := by
  induction starts generalizing touched with
  | nil => cases h
  | cons start starts ih =>
      rw [findCycleFrom] at h
      split at h
      · exact ih h
      · cases hfound : g.findCycle (start :: touched) [(start, g.edgesOf start)] with
        | error closing =>
            rw [hfound] at h
            cases h
            exact findCycle_error hfound ⟨fun e he => he, by simp, trivial⟩
        | ok found =>
            rw [hfound] at h
            exact ih h

theorem cycleFault?_eq_some {fault : Fault} (h : g.cycleFault? = some fault) :
    ∃ id label, fault = .structural (.node id) (.edgeClosesCycle label)
      ∧ g.ClosesCycle id label := by
  unfold cycleFault? at h
  split at h
  · cases h
  · next id label hfound =>
      cases h
      exact ⟨id, label, rfl, findCycleFrom_error hfound⟩

theorem cycleFault?_eq_none : g.cycleFault? = none ↔ ¬ g.Cyclic := by
  constructor
  · intro h
    exact not_cyclic_of_ends (ends_of_no_cycle h)
  · intro h
    cases hfault : g.cycleFault? with
    | none => rfl
    | some fault =>
        obtain ⟨id, label, _, hcloses⟩ := cycleFault?_eq_some hfault
        exact absurd hcloses.cyclic h

end Graph

namespace Sweep

variable {g : Graph} {s : Sweep} {touched : List Nat} {frames : List (Nat × List Edge)}

def markAt (touched path : List Nat) (i : Nat) : Mark :=
  if i ∈ path then .inProgress else if i ∈ touched then .done else .unvisited

theorem markAt_cons_of_ne {path : List Nat} {i j : Nat} (h : j ≠ i) :
    markAt touched (i :: path) j = markAt touched path j := by
  simp [markAt, h]

theorem markAt_met_of_ne {path : List Nat} {i j : Nat} (h : j ≠ i) :
    markAt (i :: touched) path j = markAt touched path j := by
  simp [markAt, h]

/-- The machine stands where a search stands that has met the objects of `touched` and has the given
frames: the objects of the frames are in progress, and the others that were met are done. -/
structure Tracks (g : Graph) (s : Sweep) (touched : List Nat) (frames : List (Nat × List Edge)) :
    Prop where
  marks : s.marks = (List.range g.objects.length).map (markAt touched (frames.map (·.1)))
  follows : frames = s.frames.map fun frame => (frame.1, (g.edgesOf frame.1).drop frame.2)
  nodup : (frames.map (·.1)).Nodup
  met : ∀ i ∈ frames.map (·.1), i ∈ touched
  present : ∀ i ∈ frames.map (·.1), i < g.objects.length

theorem set_map_range {n i : Nat} {a : Mark} {f f' : Nat → Mark} (hi : f' i = a)
    (hother : ∀ j, j ≠ i → f' j = f j) :
    ((List.range n).map f).set i a = (List.range n).map f' := by
  apply List.ext_getElem?
  intro j
  by_cases hj : j < n
  · by_cases hji : j = i
    · subst hji
      simp [hj, hi]
    · rw [List.getElem?_set_ne (Ne.symm hji)]
      simp [hj, hother j hji]
  · simp [hj]

theorem Tracks.mark (h : s.Tracks g touched frames) {i : Nat} (hi : i < g.objects.length) :
    s.marks[i]? = some (markAt touched (frames.map (·.1)) i) := by
  simp [h.marks, hi]

theorem Tracks.frame {i : Nat} {rest : List Edge}
    (h : s.Tracks g touched ((i, rest) :: frames)) :
    ∃ next below, s.frames = (i, next) :: below ∧ rest = (g.edgesOf i).drop next
      ∧ frames = below.map fun frame => (frame.1, (g.edgesOf frame.1).drop frame.2) := by
  have hframes := h.follows
  cases hs : s.frames with
  | nil => simp [hs] at hframes
  | cons frame below =>
      obtain ⟨k, next⟩ := frame
      rw [hs, List.map_cons, List.cons.injEq, Prod.mk.injEq] at hframes
      obtain ⟨⟨rfl, hrest⟩, hbelow⟩ := hframes
      exact ⟨next, below, rfl, hrest, hbelow⟩

theorem step_cons {i next : Nat} {below : List (Nat × Nat)} (hs : s.frames = (i, next) :: below)
    {m : Mark} (hm : s.marks[i]? = some m) (hi : i < g.objects.length) :
    s.step g = match (g.edgesOf i)[next]? with
      | some e => enter { s with frames := (i, next + 1) :: below } i e
      | none => .ok { s with marks := s.marks.set i .done, frames := below } := by
  have ho : g.objects[i]? = some g.objects[i] := List.getElem?_eq_getElem hi
  simp only [step, hs, ho, hm, Graph.edgesOf]

theorem Tracks.pop {i : Nat} (h : s.Tracks g touched ((i, []) :: frames)) :
    ∃ s', s.step g = .ok s' ∧ s'.start = s.start ∧ s'.Tracks g touched frames := by
  obtain ⟨next, below, hs, hrest, hbelow⟩ := h.frame
  have hi : i < g.objects.length := h.present i (List.mem_cons_self ..)
  have hnone : (g.edgesOf i)[next]? = none :=
    List.getElem?_eq_none (List.drop_eq_nil_iff.1 hrest.symm)
  obtain ⟨hnot, hnodup⟩ := List.nodup_cons.1 h.nodup
  refine ⟨{ s with marks := s.marks.set i .done, frames := below }, ?_, rfl, ?_⟩
  · rw [step_cons hs (h.mark hi) hi, hnone]
  · refine ⟨?_, hbelow, hnodup, fun k hk => h.met k (List.mem_cons_of_mem _ hk),
      fun k hk => h.present k (List.mem_cons_of_mem _ hk)⟩
    rw [h.marks]
    apply set_map_range
    · simp only [markAt, if_neg hnot, if_pos (h.met i (List.mem_cons_self ..))]
    · intro j hj
      exact (markAt_cons_of_ne hj).symm

section Edge

variable {i : Nat} {e : Edge} {rest : List Edge}
  (h : s.Tracks g touched ((i, e :: rest) :: frames)) (he : e.target < g.objects.length)

include h

theorem Tracks.edge :
    ∃ next below, s.frames = (i, next) :: below
      ∧ s.step g = enter { s with frames := (i, next + 1) :: below } i e
      ∧ (i, rest) :: frames = ((i, next + 1) :: below).map fun frame =>
          (frame.1, (g.edgesOf frame.1).drop frame.2) := by
  obtain ⟨next, below, hs, hrest, hbelow⟩ := h.frame
  have hi : i < g.objects.length := h.present i (List.mem_cons_self ..)
  have hnext : (g.edgesOf i)[next]? = some e := by
    rw [← List.head?_drop, ← hrest, List.head?_cons]
  have hdrop : rest = (g.edgesOf i).drop (next + 1) := by
    rw [← List.tail_drop, ← hrest, List.tail_cons]
  refine ⟨next, below, hs, ?_, ?_⟩
  · rw [step_cons hs (h.mark hi) hi, hnext]
  · rw [List.map_cons, ← hbelow, ← hdrop]

include he

theorem Tracks.closes (hpath : e.target = i ∨ e.target ∈ frames.map (·.1)) :
    s.step g = .error (.closes i e.label) := by
  obtain ⟨next, below, hs, hstep, _⟩ := h.edge
  have hmark : s.marks[e.target]? = some .inProgress := by
    rw [h.mark he, markAt, if_pos (by simpa using hpath)]
  rw [hstep]
  simp only [enter, hmark]

theorem Tracks.skip (hpath : ¬ (e.target = i ∨ e.target ∈ frames.map (·.1)))
    (hmet : e.target ∈ touched) :
    ∃ s', s.step g = .ok s' ∧ s'.start = s.start ∧ s'.Tracks g touched ((i, rest) :: frames) := by
  obtain ⟨next, below, hs, hstep, hframes⟩ := h.edge
  have hmark : s.marks[e.target]? = some .done := by
    rw [h.mark he, markAt, if_neg (by simpa using hpath), if_pos hmet]
  refine ⟨{ s with frames := (i, next + 1) :: below }, ?_, rfl, ?_⟩
  · rw [hstep]
    simp only [enter, hmark]
  · exact ⟨h.marks, hframes, h.nodup, h.met, h.present⟩

theorem Tracks.push (hpath : ¬ (e.target = i ∨ e.target ∈ frames.map (·.1)))
    (hnew : e.target ∉ touched) :
    ∃ s', s.step g = .ok s' ∧ s'.start = s.start
      ∧ s'.Tracks g (e.target :: touched)
          ((e.target, g.edgesOf e.target) :: (i, rest) :: frames) := by
  obtain ⟨next, below, hs, hstep, hframes⟩ := h.edge
  have hmark : s.marks[e.target]? = some .unvisited := by
    rw [h.mark he, markAt, if_neg (by simpa using hpath), if_neg hnew]
  refine ⟨⟨s.start, s.marks.set e.target .inProgress,
    (e.target, 0) :: (i, next + 1) :: below⟩, ?_, rfl, ?_⟩
  · rw [hstep]
    simp only [enter, hmark]
  · refine ⟨?_, ?_, ?_, ?_, ?_⟩
    · rw [h.marks]
      apply set_map_range
      · simp [markAt]
      · intro j hj
        exact (markAt_met_of_ne hj).trans (markAt_cons_of_ne hj)
    · rw [hframes]
      rfl
    · exact List.nodup_cons.2 ⟨by simpa using hpath, h.nodup⟩
    · intro k hk
      rcases List.mem_cons.1 hk with rfl | hk
      · exact List.mem_cons_self ..
      · exact List.mem_cons_of_mem _ (h.met k hk)
    · intro k hk
      rcases List.mem_cons.1 hk with rfl | hk
      · exact he
      · exact h.present k hk

end Edge

theorem Tracks.target_lt (hg : g.EdgesPresent) {i : Nat} {e : Edge} {rest : List Edge}
    (h : s.Tracks g touched ((i, e :: rest) :: frames)) : e.target < g.objects.length := by
  obtain ⟨next, _, _, hrest, _⟩ := h.frame
  have he : e ∈ (g.edgesOf i).drop next := hrest ▸ List.mem_cons_self ..
  exact hg i e (List.mem_of_mem_drop he)

def Finishes (g : Graph) (s : Sweep) : Except (Nat × String) (List Nat) → Prop
  | .error (id, label) => s.Halts g (.closes id label)
  | .ok all => ∃ s', s.Leaps g s' ∧ s'.start = s.start ∧ s'.Tracks g all []

theorem Finishes.of_step {s' : Sweep} {result : Except (Nat × String) (List Nat)}
    (hstep : s.step g = .ok s') (hstart : s'.start = s.start) (h : s'.Finishes g result) :
    s.Finishes g result := by
  cases result with
  | error closing => exact Halts.of_leaps (.single hstep) h
  | ok all =>
      obtain ⟨last, hlast, hlastStart, htracks⟩ := h
      exact ⟨last, .head hstep hlast, hlastStart.trans hstart, htracks⟩

theorem Tracks.finishes (hg : g.EdgesPresent) (h : s.Tracks g touched frames) :
    s.Finishes g (g.findCycle touched frames) := by
  fun_induction Graph.findCycle g touched frames generalizing s with
  | case1 touched => exact ⟨s, .refl, rfl, h⟩
  | case2 touched i frames ih =>
      obtain ⟨s', hstep, hstart, hnext⟩ := h.pop
      exact (ih hnext).of_step hstep hstart
  | case3 touched i e rest frames hcycle =>
      exact ⟨s, .refl, h.closes (h.target_lt hg) hcycle⟩
  | case4 touched i e rest frames hpath hold ih =>
      have hmet : e.target ∈ touched := by
        rcases hold with hmet | hbeyond
        · simpa using hmet
        · exact absurd (h.target_lt hg) (Nat.not_lt.2 hbeyond)
      obtain ⟨s', hstep, hstart, hnext⟩ := h.skip (h.target_lt hg) hpath hmet
      exact (ih hnext).of_step hstep hstart
  | case5 touched i e rest frames hpath hnew ih =>
      have hfresh : e.target ∉ touched := fun hmet => hnew (.inl (by simpa using hmet))
      obtain ⟨s', hstep, hstart, hnext⟩ := h.push (h.target_lt hg) hpath hfresh
      exact (ih hnext).of_step hstep hstart

section Start

variable (h : s.Tracks g touched [])

include h

theorem Tracks.frames_eq_nil : s.frames = [] := by
  have hfollows := h.follows
  simpa using hfollows

theorem Tracks.begin (hstart : s.start < g.objects.length) (hnew : s.start ∉ touched) :
    ∃ s', s.step g = .ok s' ∧ s'.start = s.start + 1
      ∧ s'.Tracks g (s.start :: touched) [(s.start, g.edgesOf s.start)] := by
  have hmark : s.marks[s.start]? = some .unvisited := by
    simp [h.mark hstart, markAt, hnew]
  refine ⟨⟨s.start + 1, s.marks.set s.start .inProgress, [(s.start, 0)]⟩, ?_, rfl, ?_⟩
  · simp only [step, h.frames_eq_nil, if_pos hstart, hmark]
  · refine ⟨?_, rfl, by simp, by simp, by simpa using hstart⟩
    rw [h.marks]
    apply set_map_range
    · simp [markAt]
    · intro j hj
      exact (markAt_met_of_ne hj).trans (markAt_cons_of_ne hj)

theorem Tracks.pass (hstart : s.start < g.objects.length) (hmet : s.start ∈ touched) :
    s.step g = .ok { s with start := s.start + 1 } := by
  have hmark : s.marks[s.start]? = some .done := by
    simp [h.mark hstart, markAt, hmet]
  simp only [step, h.frames_eq_nil, if_pos hstart, hmark]

theorem Tracks.stop (hstart : s.start = g.objects.length) : s.step g = .error .acyclic := by
  simp [step, h.frames_eq_nil, hstart]

end Start

theorem Tracks.halts (hg : g.EdgesPresent) {m : Nat} (h : s.Tracks g touched [])
    (hm : s.start + m = g.objects.length) :
    s.Halts g (.ofResult (g.findCycleFrom touched (List.range' s.start m))) := by
  induction m generalizing s touched with
  | zero => exact ⟨s, .refl, h.stop (by omega)⟩
  | succ m ih =>
      have hstart : s.start < g.objects.length := by omega
      rw [List.range'_succ, Graph.findCycleFrom]
      split
      · next hmet =>
          have hpass := h.pass hstart (by simpa using hmet)
          have hnext : Tracks g { s with start := s.start + 1 } touched [] :=
            ⟨h.marks, h.follows, h.nodup, h.met, h.present⟩
          exact .of_leaps (.single hpass) (ih hnext (by simp only; omega))
      · next hnew =>
          obtain ⟨s', hstep, hs', hbegun⟩ := h.begin hstart (by simpa using hnew)
          have hfinishes := hbegun.finishes hg
          cases hfound : g.findCycle (s.start :: touched) [(s.start, g.edgesOf s.start)] with
          | error closing =>
              rw [hfound] at hfinishes
              exact .of_leaps (.single hstep) hfinishes
          | ok all =>
              rw [hfound] at hfinishes
              obtain ⟨last, hlast, hlastStart, htracks⟩ := hfinishes
              have hrest := ih htracks (by omega)
              rw [hlastStart, hs'] at hrest
              exact .of_leaps (.head hstep hlast) hrest

theorem tracks_initial (g : Graph) : (initial g).Tracks g [] [] := by
  refine ⟨?_, rfl, by simp, by simp, by simp⟩
  apply List.ext_getElem?
  intro i
  by_cases hi : i < g.objects.length
  · simp [initial, markAt, hi]
  · simp [initial, hi]

theorem halts_initial (hg : g.EdgesPresent) :
    (initial g).Halts g (.ofResult (g.findCycleFrom [] (List.range g.objects.length))) := by
  rw [List.range_eq_range']
  exact (tracks_initial g).halts hg (Nat.zero_add _)

end Sweep

namespace Graph

theorem cycleFault?_eq_fault? (g : Graph) : g.cycleFault? =
    (Verdict.ofResult (g.findCycleFrom [] (List.range g.objects.length))).fault? := by
  unfold cycleFault?
  cases g.findCycleFrom [] (List.range g.objects.length) <;> rfl

theorem ofResult_ne_outOfRange (result : Except (Nat × String) (List Nat)) (i : Nat) :
    Verdict.ofResult result ≠ .outOfRange i := by
  cases result <;> simp [Verdict.ofResult]

end Graph

theorem cycleFault?_decides (g : Graph) :
    (g.EdgesPresent →
      (∃ v, (∀ w, (Sweep.initial g).Halts g w ↔ w = v) ∧ (∀ i, v ≠ .outOfRange i)
          ∧ g.cycleFault? = v.fault?)
        ∧ (g.cycleFault? = none ↔ ¬ g.Cyclic)
        ∧ ∀ fault, g.cycleFault? = some fault →
            ∃ id label, fault = .structural (.node id) (.edgeClosesCycle label)
              ∧ g.ClosesCycle id label)
      ∧ ((∀ i o, g.objects[i]? = some o → g.objectFault? o i = none) → g.EdgesPresent)
      ∧ (g.validate = .ok () → ¬ g.Cyclic) := by
  refine ⟨fun hg => ⟨?_, Graph.cycleFault?_eq_none, fun fault h => Graph.cycleFault?_eq_some h⟩,
    Graph.edgesPresent_of_objects,
    fun hvalid => Graph.cycleFault?_eq_none.1 (Graph.cycleFault?_of_valid hvalid)⟩
  have hhalts := Sweep.halts_initial hg
  refine ⟨_, fun w => ⟨fun hw => hw.unique hhalts, fun hw => ?_⟩,
    Graph.ofResult_ne_outOfRange _, g.cycleFault?_eq_fault?⟩
  rw [hw]
  exact hhalts

def loopedScene : Graph where
  objects := [.spriteVisual {} none [],
    .expressionAnimation "second" [⟨"second", .node 2⟩],
    .expressionAnimation "first" [⟨"first", .node 1⟩]]
  root := some 0
  bindings := Catalog.empty

def twinScene : Graph where
  objects := [.containerVisual {} [1, 1] [], .spriteVisual {} none []]
  root := some 0
  bindings := Catalog.empty

theorem cycleFault?_decides_scenes :
    loopedScene.EdgesPresent
      ∧ (∃ v, (∀ w, (Sweep.initial loopedScene).Halts loopedScene w ↔ w = v)
          ∧ (∀ i, v ≠ .outOfRange i) ∧ loopedScene.cycleFault? = v.fault?)
      ∧ loopedScene.cycleFault? = some (.structural (.node 2) (.edgeClosesCycle "first"))
      ∧ loopedScene.Cyclic
      ∧ twinScene.validate = .ok () ∧ twinScene.EdgesPresent ∧ ¬ twinScene.Cyclic := by
  have hpresent : loopedScene.EdgesPresent :=
    (cycleFault?_decides loopedScene).2.1 fun i o ho => by
      rcases i with _ | _ | _ | i <;> cases ho <;> cbv
  have hfault : loopedScene.cycleFault? =
      some (.structural (.node 2) (.edgeClosesCycle "first")) := by cbv
  have htwin : twinScene.validate = .ok () := by cbv
  obtain ⟨hverdict, hiff, _⟩ := (cycleFault?_decides loopedScene).1 hpresent
  refine ⟨hpresent, hverdict, hfault, ?_, htwin, ?_, (cycleFault?_decides twinScene).2.2 htwin⟩
  · by_contra hacyclic
    rw [hiff.2 hacyclic] at hfault
    cases hfault
  · exact (cycleFault?_decides twinScene).2.1 fun i o ho =>
      Graph.objectFault?_of_valid htwin ho

end Scenograph
