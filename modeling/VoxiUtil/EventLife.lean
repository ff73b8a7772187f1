import VoxiUtil.EventRing

/-!
The life of the events of `event.c`. An event is allocated by its poster, goes through the
ring and the main loop to a thread that handles it, and is freed by that thread or, when its
poster waits for it, by the poster.
-/
namespace VoxiUtil.EventLife
open VoxiUtil.Runs VoxiUtil.Event VoxiUtil.EventRing

section
variable {τ V : Type}

/-- The event that a poster still uses. -/
def uses : PosterAt V → Option Nat
  | .stored _ event => some event
  | .moved request event => if request.blocking then some event else none
  | .unlocked request event => if request.blocking then some event else none
  | .posted event => some event
  | _ => none

/-- The event that the main loop has in hand. -/
def inHand : MainAt → List Nat
  | .got event => [event]
  | .locked event => [event]
  | .moved event => [event]
  | .unlocked event => [event]
  | _ => []

/-- The events that were inserted and are not handled yet. -/
def pending (s : System τ V) : List Nat := contents s ++ (inHand s.main ++ s.handling)

variable [DecidableEq τ]

/-- The ring loses no event, and each event that was inserted is pending or was handled once; the events in memory are the
    pending ones and those that their posters still use, so that none is left behind and the end of a handler finds its
    event; and a post that waits returns just when its event has been handled. -/
structure Settled (s : System τ V) : Prop extends Keeps s where
  handled : ∃ finished, s.inserted.Perm (finished ++ pending s)
  live : ∀ event, (s.events event).isSome = true ↔ event ∈ pending s ∨ ∃ t, uses (s.poster t) = some event
  finishes : ∀ event ∈ s.handling, ∃ s', step s (.finish event) = some s'
  returns : ∀ t event, s.poster t = .posted event → ((∃ s', step s (.poster t) = some s') ↔ event ∉ pending s)

/-- What a run keeps besides the ring. The semaphore of an event is posted when it has been handled. -/
structure Life (s : System τ V) : Prop where
  fresh : ∀ event, s.allocated ≤ event → s.events event = none
  live : ∀ event, (s.events event).isSome = true ↔ event ∈ pending s ∨ ∃ t, uses (s.poster t) = some event
  alone : ∀ t u event, uses (s.poster t) = some event → uses (s.poster u) = some event → t = u
  early : ∀ t request event, s.poster t = .stored request event → s.events event = some (newEvent request)
  later : ∀ event e, s.events event = some e → (∀ t request, s.poster t ≠ .stored request event) →
    (e.isBlocking = true ↔ ∃ t, uses (s.poster t) = some event) ∧ (event ∈ pending s → e.semaphore = 0) ∧
      (event ∉ pending s → e.semaphore = 1)
  handled : ∃ finished, s.taken.Perm (finished ++ (inHand s.main ++ s.handling))

omit [DecidableEq τ]
variable {s s' : System τ V} {t : τ} {place : PosterAt V} {request : Request V} {event : Nat} {e : SEvent V}

theorem contents_same (keeps : Keeps s) (keeps' : Keeps s') (inserted : s'.inserted = s.inserted) (taken : s'.taken = s.taken) :
    contents s' = contents s := by
  have order := keeps'.order
  rw [inserted, taken, keeps.order] at order
  exact (List.append_cancel_left order).symm

theorem Life.inserted (inv : Inv s) (life : Life s) : ∃ finished, s.inserted.Perm (finished ++ pending s) := by
  obtain ⟨finished, perm⟩ := life.handled
  refine ⟨finished, ?_⟩
  rw [inv.keeps.order, pending]
  refine (perm.append_right (contents s)).trans ?_
  rw [List.append_assoc]
  exact List.perm_append_comm.append_left finished

theorem Life.pending_inserted (inv : Inv s) (life : Life s) (waits : event ∈ pending s) : event ∈ s.inserted := by
  obtain ⟨finished, perm⟩ := life.inserted inv
  exact perm.mem_iff.mpr (List.mem_append_right _ waits)

theorem Life.pending_once (inv : Inv s) (life : Life s) : (pending s).Nodup := by
  obtain ⟨finished, perm⟩ := life.inserted inv
  exact (List.nodup_append.mp (perm.nodup_iff.mp inv.once)).2.1

/-- An event that a poster stores is not in the ring yet. -/
theorem Life.stored_apart (inv : Inv s) (life : Life s) (here : s.poster t = .stored request event) : event ∉ pending s :=
  fun waits => (inv.stored t request event here).2.1 (life.pending_inserted inv waits)

theorem Life.used_small (life : Life s) (used : uses (s.poster t) = some event) : event < s.allocated := by
  by_contra large
  have found := (life.live event).mpr (.inr ⟨t, used⟩)
  rw [life.fresh event (by omega)] at found
  cases found

/-- Steps that no event notices. -/
theorem Life.silent (life : Life s) (events : s'.events = s.events) (allocated : s'.allocated = s.allocated)
    (waits : ∀ event, event ∈ pending s' ↔ event ∈ pending s) (used : ∀ t, uses (s'.poster t) = uses (s.poster t))
    (stored : ∀ t request event, s'.poster t = .stored request event ↔ s.poster t = .stored request event)
    (handled : ∃ finished, s'.taken.Perm (finished ++ (inHand s'.main ++ s'.handling))) : Life s' := by
  refine ⟨?_, ?_, ?_, ?_, ?_, handled⟩
  · rw [events, allocated]
    exact life.fresh
  · simp only [events, waits, used]
    exact life.live
  · simp only [used]
    exact life.alone
  · simp only [events, stored]
    exact life.early
  · simp only [events, waits, used, ne_eq, stored]
    exact life.later

/-- A poster that goes on to use what it used. -/
theorem Life.placed (life : Life s) (keeps : Keeps s) (keeps' : Keeps s') (events : s'.events = s.events)
    (allocated : s'.allocated = s.allocated) (inserted : s'.inserted = s.inserted) (taken : s'.taken = s.taken)
    (main : s'.main = s.main) (handling : s'.handling = s.handling) [DecidableEq τ] (poster : s'.poster = Function.update s.poster t place)
    (used : uses place = uses (s.poster t)) (before : ∀ request event, s.poster t ≠ .stored request event)
    (after : ∀ request event, place ≠ .stored request event) : Life s' := by
  refine life.silent events allocated ?_ (fun u => ?_) (fun u request event => ?_) ?_
  · rw [pending, pending, contents_same keeps keeps' inserted taken, main, handling]
    exact fun _ => Iff.rfl
  · rw [poster]
    by_cases same : u = t
    · rw [same, Function.update_self, used]
    · rw [Function.update_of_ne same]
  · rw [poster]
    by_cases same : u = t
    · rw [same, Function.update_self]
      exact ⟨fun is => absurd is (after _ _), fun is => absurd is (before _ _)⟩
    · rw [Function.update_of_ne same]
  · rw [taken, main, handling]
    exact life.handled

/-- A step of the main loop. -/
theorem Life.main (life : Life s) (events : s'.events = s.events) (allocated : s'.allocated = s.allocated)
    (poster : s'.poster = s.poster) (perm : (pending s').Perm (pending s))
    (handled : ∃ finished, s'.taken.Perm (finished ++ (inHand s'.main ++ s'.handling))) : Life s' :=
  life.silent events allocated (fun _ => perm.mem_iff) (fun t => by rw [poster]) (fun t _ _ => by rw [poster]) handled

/-! ### The steps that touch an event -/

/-- No poster stores an event that another uses. -/
theorem Life.outside (life : Life s) (used : uses (s.poster t) = some event) (away : ∀ request, s.poster t ≠ .stored request event)
    (u : τ) (request : Request V) : s.poster u ≠ .stored request event := by
  intro stores
  obtain rfl := life.alone u t event (by rw [stores]; rfl) used
  exact away request stores

theorem finish_life (inv : Inv s) (life : Life s) (handling : event ∈ s.handling) (found : s.events event = some e) :
    Life { s with handling := s.handling.erase event
                  events := Function.update s.events event (if e.isBlocking then some { e with semaphore := e.semaphore + 1 } else none) } := by
  set s' : System τ V := { s with handling := _, events := _ } with after
  have waiting : event ∈ pending s := by simp [pending, handling]
  have outside : ∀ u request, s.poster u ≠ .stored request event := fun u request stores => life.stored_apart inv stores waiting
  obtain ⟨blocks, zero, -⟩ := life.later event e found outside
  have split : (pending s).Perm (event :: pending s') := by
    rw [pending, show pending s' = contents s ++ (inHand s.main ++ s.handling.erase event) from rfl]
    refine (((List.perm_cons_erase handling).append_left (inHand s.main)).append_left (contents s)).trans ?_
    refine (List.perm_middle.append_left (contents s)).trans ?_
    exact List.perm_middle
  have once := split.nodup_iff.mp (life.pending_once inv)
  have done : event ∉ pending s' := (List.nodup_cons.mp once).1
  have waits : ∀ one, one ≠ event → (one ∈ pending s' ↔ one ∈ pending s) := by
    intro one apart
    rw [split.mem_iff, List.mem_cons]
    simp [apart]
  have stays : ∀ one, one ≠ event → s'.events one = s.events one := fun one apart => Function.update_of_ne apart _ _
  have now : s'.events event = if e.isBlocking then some { e with semaphore := e.semaphore + 1 } else none := Function.update_self ..
  refine ⟨fun one large => ?_, fun one => ?_, life.alone, fun u request' one stores => ?_, fun one e' live stored => ?_, ?_⟩
  · have apart : one ≠ event := by
      rintro rfl
      rw [life.fresh one large] at found
      cases found
    rw [stays one apart]
    exact life.fresh one large
  · by_cases same : one = event
    · subst same
      rw [now]
      simp only [done, false_or]
      rw [show s'.poster = s.poster from rfl, ← blocks]
      cases e.isBlocking <;> simp
    · rw [waits one same, stays one same]
      exact life.live one
  · have apart : one ≠ event := by
      rintro rfl
      exact outside u request' stores
    rw [stays one apart]
    exact life.early u request' one stores
  · by_cases same : one = event
    · subst same
      rw [now] at live
      by_cases blocking : e.isBlocking = true
      · rw [if_pos blocking] at live
        cases live
        refine ⟨blocks, fun again => absurd again done, fun _ => ?_⟩
        simp [zero waiting]
      · rw [if_neg blocking] at live
        cases live
    · rw [stays one same] at live
      rw [waits one same]
      exact life.later one e' live stored
  · obtain ⟨finished, perm⟩ := life.handled
    refine ⟨event :: finished, perm.trans ?_⟩
    refine (((List.perm_cons_erase handling).append_left (inHand s.main)).append_left finished).trans ?_
    refine (List.perm_middle.append_left finished).trans ?_
    exact List.perm_middle

variable [DecidableEq τ]

theorem store_life (life : Life s) (keeps : Keeps s) (here : s.poster t = .locked request)
    (keeps' : Keeps (setPoster { s with allocated := s.allocated + 1
                                        events := Function.update s.events s.allocated (some (newEvent request))
                                        eventQueue := Function.update s.eventQueue s.backEvent s.allocated } t (.stored request s.allocated))) :
    Life (setPoster { s with allocated := s.allocated + 1
                             events := Function.update s.events s.allocated (some (newEvent request))
                             eventQueue := Function.update s.eventQueue s.backEvent s.allocated } t (.stored request s.allocated)) := by
  set s' := setPoster _ t _ with after
  have waits : pending s' = pending s := by
    rw [pending, pending, contents_same keeps keeps' rfl rfl]
    rfl
  have new : s.allocated ∉ pending s ∧ ∀ u, uses (s.poster u) ≠ some s.allocated := by
    have gone : ¬ (s.events s.allocated).isSome = true := by simp [life.fresh s.allocated (Nat.le_refl _)]
    rw [life.live] at gone
    exact ⟨fun waits => gone (.inl waits), fun u used => gone (.inr ⟨u, used⟩)⟩
  have other : ∀ u event, event ≠ s.allocated → (uses (s'.poster u) = some event ↔ uses (s.poster u) = some event) := by
    intro u event apart
    by_cases same : u = t
    · rw [same, here]
      simpa [after, setPoster, uses] using Ne.symm apart
    · simp [after, setPoster, Function.update_of_ne same]
  have own : ∀ u, uses (s'.poster u) = some s.allocated ↔ u = t := by
    intro u
    by_cases same : u = t
    · simp [after, setPoster, same, uses]
    · simpa [after, setPoster, Function.update_of_ne same, same] using new.2 u
  refine ⟨fun event large => ?_, fun event => ?_, fun u u' event used used' => ?_, fun u request' event stores => ?_, fun event e found outside => ?_, life.handled⟩
  · have past : s.allocated + 1 ≤ event := large
    show Function.update s.events s.allocated _ event = none
    rw [Function.update_of_ne (by omega), life.fresh event (by omega)]
  · show (Function.update s.events s.allocated (some (newEvent request)) event).isSome = true ↔ _
    rw [waits]
    by_cases same : event = s.allocated
    · subst same
      rw [Function.update_self]
      exact ⟨fun _ => .inr ⟨t, (own t).mpr rfl⟩, fun _ => rfl⟩
    · rw [Function.update_of_ne same, life.live]
      simp only [other _ _ same]
  · by_cases same : event = s.allocated
    · subst same
      exact ((own u).mp used).trans ((own u').mp used').symm
    · exact life.alone u u' event ((other u event same).mp used) ((other u' event same).mp used')
  · show Function.update s.events s.allocated _ event = _
    by_cases same : u = t
    · rw [same, after] at stores
      simp only [setPoster, Function.update_self, PosterAt.stored.injEq] at stores
      obtain ⟨rfl, rfl⟩ := stores
      rw [Function.update_self]
    · have before : s.poster u = .stored request' event := by
        rw [← stores, after]
        simp [setPoster, Function.update_of_ne same]
      have small := life.used_small (show uses (s.poster u) = some event by rw [before]; rfl)
      rw [Function.update_of_ne (by omega)]
      exact life.early u request' event before
  · have apart : event ≠ s.allocated := by
      rintro rfl
      exact outside t request (by simp [after, setPoster])
    have before : s.events event = some e := by
      rw [← found]
      exact (Function.update_of_ne apart _ _).symm
    rw [waits]
    simp only [other _ _ apart]
    refine life.later event e before fun u request' stores => ?_
    by_cases same : u = t
    · rw [same, here] at stores
      cases stores
    · refine outside u request' ?_
      rw [← stores, after]
      simp [setPoster, Function.update_of_ne same]

theorem insert_life (inv : Inv s) (life : Life s) (here : s.poster t = .stored request event)
    (keeps' : Keeps (setPoster { s with backEvent := (s.backEvent + 1) % eventMaxEvents, inserted := s.inserted ++ [event] } t
      (.moved request event))) :
    Life (setPoster { s with backEvent := (s.backEvent + 1) % eventMaxEvents, inserted := s.inserted ++ [event] } t
      (.moved request event)) := by
  set s' := setPoster _ t _ with after
  have longer : contents s' = contents s ++ [event] := by
    have order : s.inserted ++ [event] = s.taken ++ contents s' := keeps'.order
    rw [inv.keeps.order, List.append_assoc] at order
    exact (List.append_cancel_left order).symm
  have waits : ∀ other, other ∈ pending s' ↔ other = event ∨ other ∈ pending s := by
    intro other
    have rest : pending s' = contents s' ++ (inHand s.main ++ s.handling) := rfl
    rw [rest, longer, pending]
    simp only [List.mem_append, List.mem_singleton]
    tauto
  have others : ∀ u, u ≠ t → s'.poster u = s.poster u := fun u apart => Function.update_of_ne apart _ _
  have mine : s'.poster t = .moved request event := Function.update_self ..
  have used : uses (s.poster t) = some event := by rw [here]; rfl
  have other : ∀ u one, one ≠ event → (uses (s'.poster u) = some one ↔ uses (s.poster u) = some one) := by
    intro u one apart
    by_cases same : u = t
    · rw [same, mine, used, uses]
      split <;> simp [Ne.symm apart]
    · rw [others u same]
  have own : ∀ u, uses (s'.poster u) = some event ↔ u = t ∧ request.blocking = true := by
    intro u
    by_cases same : u = t
    · rw [same, mine, uses]
      split <;> simp_all
    · rw [others u same]
      exact ⟨fun again => absurd (life.alone u t event again used) same, fun is => absurd is.1 same⟩
  have found := life.early t request event here
  refine ⟨life.fresh, fun one => ?_, fun u u' one first second => ?_, fun u request' one stores => ?_, fun one e live outside => ?_, life.handled⟩
  · rw [waits]
    by_cases same : one = event
    · subst same
      exact ⟨fun _ => .inl (.inl rfl), fun _ => by rw [show s'.events = s.events from rfl, found]; rfl⟩
    · simp only [other _ _ same, same, false_or]
      exact life.live one
  · by_cases same : one = event
    · subst same
      exact ((own u).mp first).1.trans ((own u').mp second).1.symm
    · exact life.alone u u' one ((other u one same).mp first) ((other u' one same).mp second)
  · by_cases same : u = t
    · rw [same, mine] at stores
      cases stores
    · rw [others u same] at stores
      exact life.early u request' one stores
  · by_cases same : one = event
    · subst same
      obtain rfl : newEvent request = e := Option.some.inj (found.symm.trans live)
      refine ⟨?_, fun _ => rfl, fun gone => absurd ((waits one).mpr (.inl rfl)) gone⟩
      simp only [own]
      exact ⟨fun blocking => ⟨t, rfl, blocking⟩, fun ⟨_, _, blocking⟩ => blocking⟩
    · simp only [other _ _ same, waits, same, false_or]
      refine life.later one e live fun u request' stores => ?_
      by_cases is : u = t
      · rw [is, here] at stores
        cases stores
        exact same rfl
      · exact outside u request' ((others u is).trans stores)

theorem return_life (life : Life s) (here : s.poster t = .posted event) (found : s.events event = some e) (posted : 0 < e.semaphore) :
    Life (setPoster { s with events := Function.update s.events event none } t .outside) := by
  set s' := setPoster _ t _ with after
  have used : uses (s.poster t) = some event := by rw [here]; rfl
  have away : ∀ request, s.poster t ≠ .stored request event := by simp [here]
  have finished : event ∉ pending s := by
    intro waits
    have zero := (life.later event e found (life.outside used away)).2.1 waits
    omega
  have others : ∀ u, u ≠ t → s'.poster u = s.poster u := fun u apart => Function.update_of_ne apart _ _
  have mine : s'.poster t = .outside := Function.update_self ..
  have other : ∀ u one, one ≠ event → (uses (s'.poster u) = some one ↔ uses (s.poster u) = some one) := by
    intro u one apart
    by_cases same : u = t
    · rw [same, mine, used]
      simp [uses, Ne.symm apart]
    · rw [others u same]
  have own : ∀ u, uses (s'.poster u) ≠ some event := by
    intro u
    by_cases same : u = t
    · simp [same, mine, uses]
    · rw [others u same]
      exact fun again => same (life.alone u t event again used)
  have stays : ∀ one, one ≠ event → s'.events one = s.events one := fun one apart => Function.update_of_ne apart _ _
  have gone : s'.events event = none := Function.update_self ..
  have waits : pending s' = pending s := rfl
  refine ⟨fun one large => ?_, fun one => ?_, fun u u' one first second => ?_, fun u request' one stores => ?_, fun one e live outside => ?_, life.handled⟩
  · by_cases same : one = event
    · rw [same, gone]
    · rw [stays one same]
      exact life.fresh one large
  · rw [waits]
    by_cases same : one = event
    · subst same
      simp [gone, finished, own]
    · simp only [other _ _ same, stays one same]
      exact life.live one
  · by_cases same : one = event
    · exact absurd (same ▸ first) (own u)
    · exact life.alone u u' one ((other u one same).mp first) ((other u' one same).mp second)
  · by_cases same : u = t
    · rw [same, mine] at stores
      cases stores
    · rw [others u same] at stores
      have apart : one ≠ event := by
        rintro rfl
        exact life.outside used away u request' stores
      rw [stays one apart]
      exact life.early u request' one stores
  · have apart : one ≠ event := by
      rintro rfl
      rw [gone] at live
      cases live
    rw [stays one apart] at live
    simp only [other _ _ apart, waits]
    refine life.later one e live fun u request' stores => ?_
    by_cases is : u = t
    · rw [is, here] at stores
      cases stores
    · exact outside u request' ((others u is).trans stores)

/-! ### Runs -/

theorem poster_life (inv : Inv s) (life : Life s) (keeps' : Keeps s') (done : emPostEvent s t = some s') : Life s' := by
  have keeps := inv.keeps
  rw [emPostEvent] at done
  cases here : s.poster t with
  | outside => simp [here] at done
  | checked request =>
    simp only [here, Option.bind_eq_bind, Option.bind_eq_some_iff] at done
    obtain ⟨-, -, ⟨⟩⟩ := done
    exact life.placed keeps keeps' rfl rfl rfl rfl rfl rfl rfl (by simp [here, uses]) (by simp [here]) (by simp)
  | locked request =>
    simp only [here] at done
    cases done
    exact store_life life keeps here keeps'
  | stored request event =>
    simp only [here] at done
    cases done
    exact insert_life inv life here keeps'
  | moved request event =>
    simp only [here] at done
    cases done
    exact life.placed keeps keeps' rfl rfl rfl rfl rfl rfl rfl (by simp [here, uses]) (by simp [here]) (by simp)
  | unlocked request event =>
    simp only [here] at done
    cases done
    cases blocking : request.blocking <;> rw [blocking] at keeps' <;>
      exact life.placed keeps keeps' rfl rfl rfl rfl rfl rfl rfl (by simp [here, uses, blocking]) (by simp [here]) (by simp)
  | posted event =>
    simp only [here, Option.bind_eq_bind, Option.bind_eq_some_iff, assert_eq_some] at done
    obtain ⟨e, found, -, posted, ⟨⟩⟩ := done
    exact return_life life here found posted

omit [DecidableEq τ] in
theorem mainLoop_life (inv : Inv s) (life : Life s) (keeps' : Keeps s') (done : emMainLoop s = some s') : Life s' := by
  have keeps := inv.keeps
  obtain ⟨finished, perm⟩ := life.handled
  rw [emMainLoop] at done
  cases here : s.main with
  | waiting =>
    simp only [here, Option.bind_eq_bind, Option.bind_eq_some_iff] at done
    obtain ⟨-, -, ⟨⟩⟩ := done
    have same := contents_same keeps keeps' rfl rfl
    refine life.main rfl rfl rfl ?_ ⟨finished, by simpa [here, inHand] using perm⟩
    simp [pending, same, here, inHand]
  | woken =>
    simp only [here, Option.bind_eq_bind, Option.bind_eq_some_iff] at done
    obtain ⟨-, -, ⟨⟩⟩ := done
    have order := keeps'.order
    simp only [List.append_assoc] at order
    rw [keeps.order] at order
    have first := List.append_cancel_left order
    simp only [here, inHand, List.nil_append] at perm
    refine life.main rfl rfl rfl ?_ ⟨finished, ?_⟩
    · rw [pending, pending, first]
      simp only [here, inHand, List.nil_append, List.singleton_append]
      exact List.perm_middle
    · refine (perm.append_right _).trans ?_
      simp only [inHand, List.append_assoc]
      exact List.perm_append_comm.append_left finished
  | got event =>
    simp only [here, Option.bind_eq_bind, Option.bind_eq_some_iff] at done
    obtain ⟨-, -, ⟨⟩⟩ := done
    have same := contents_same keeps keeps' rfl rfl
    refine life.main rfl rfl rfl ?_ ⟨finished, by simpa [here, inHand] using perm⟩
    simp [pending, same, here, inHand]
  | locked event =>
    simp only [here] at done
    cases done
    have same := contents_same keeps keeps' rfl rfl
    refine life.main rfl rfl rfl ?_ ⟨finished, by simpa [here, inHand] using perm⟩
    simp [pending, same, here, inHand]
  | moved event =>
    simp only [here] at done
    cases done
    have same := contents_same keeps keeps' rfl rfl
    refine life.main rfl rfl rfl ?_ ⟨finished, by simpa [here, inHand] using perm⟩
    simp [pending, same, here, inHand]
  | unlocked event =>
    simp only [here] at done
    cases done
    have same := contents_same keeps keeps' rfl rfl
    have last : (inHand s.main ++ s.handling).Perm (s.handling ++ [event]) := by
      rw [here]
      exact List.perm_append_comm
    refine life.main rfl rfl rfl ?_ ⟨finished, perm.trans (last.append_left finished)⟩
    rw [pending, pending, same]
    exact last.symm.append_left (contents s)

theorem step_life {a : Act τ V} (inv : Inv s) (life : Life s) (permitted : Permitted s a) (done : step s a = some s') : Life s' := by
  have keeps' := (step_inv inv permitted done).keeps
  cases a with
  | post t request =>
    simp only [step, enter] at done
    cases here : s.poster t with
    | outside =>
      simp only [here, Option.bind_eq_bind, Option.bind_eq_some_iff] at done
      obtain ⟨-, -, -, -, ⟨⟩⟩ := done
      exact life.placed inv.keeps keeps' rfl rfl rfl rfl rfl rfl rfl (by simp [here, uses]) (by simp [here]) (by simp)
    | _ => simp [here] at done
  | poster t => exact poster_life inv life keeps' done
  | main => exact mainLoop_life inv life keeps' done
  | finish event =>
    simp only [step, finishedWithEvent, Option.bind_eq_bind, Option.bind_eq_some_iff, assert_eq_some] at done
    obtain ⟨-, handling, e, found, ⟨⟩⟩ := done
    exact finish_life inv life handling found

omit [DecidableEq τ] in
theorem startup_life (eventQueue : Nat → Nat) : Life (emStartup eventQueue : System τ V) := by
  have nothing : pending (emStartup eventQueue : System τ V) = [] := by
    have order := (startup_inv eventQueue : Inv (emStartup eventQueue : System τ V)).keeps.order
    have empty : contents (emStartup eventQueue : System τ V) = [] := (List.append_eq_nil_iff.mp order.symm).2
    rw [pending, empty]
    rfl
  refine ⟨fun _ _ => rfl, fun event => ?_, ?_, ?_, ?_, ⟨[], List.Perm.refl _⟩⟩
  · rw [nothing]
    simp [emStartup, uses]
  · simp [emStartup, uses]
  · simp [emStartup]
  · simp [emStartup]

theorem return_iff (here : s.poster t = .posted event) (found : s.events event = some e) :
    (∃ s', step s (.poster t) = some s') ↔ 0 < e.semaphore := by
  by_cases posted : 0 < e.semaphore <;> simp [step, emPostEvent, here, found, assert, posted]

theorem settled_inv (inv : Inv s) (life : Life s) : Settled s := by
  refine ⟨inv.keeps, life.inserted inv, life.live, fun event handling => ?_, fun t event here => ?_⟩
  · obtain ⟨e, found⟩ := Option.isSome_iff_exists.mp ((life.live event).mpr (.inl (by simp [pending, handling])))
    exact ⟨_, by simp only [step, finishedWithEvent, assert_true handling, found, Option.bind_eq_bind, Option.bind_some]; rfl⟩
  · have used : uses (s.poster t) = some event := by rw [here]; rfl
    obtain ⟨e, found⟩ := Option.isSome_iff_exists.mp ((life.live event).mpr (.inr ⟨t, used⟩))
    obtain ⟨-, zero, one⟩ := life.later event e found (life.outside used (by simp [here]))
    rw [return_iff here found]
    constructor
    · intro posted waits
      rw [zero waits] at posted
      cases posted
    · intro done
      rw [one done]
      exact Nat.one_pos

/-- In a run of any posters, the main loop and the threads that handle the events, every event is handled once, freed once and not
    used after, and every post that waits returns when its event was handled, just when the ring is never overrun. -/
theorem events_settle_iff (eventQueue : Nat → Nat) {labels : List (Act τ V)} (ran : run step (emStartup eventQueue) labels = some s) :
    Visits step Settled (emStartup eventQueue) labels ↔ Guarded step Permitted (emStartup eventQueue) labels := by
  have always : Guarded step (fun (_ : System τ V) (_ : Act τ V) => True) (emStartup eventQueue) labels :=
    guarded_forall fun _ _ _ => trivial
  have preserved : ∀ (s : System τ V) a s', True → Inv s ∧ Life s → Permitted s a → step s a = some s' → Inv s' ∧ Life s' :=
    fun s a s' _ known permitted done => ⟨step_inv known.1 permitted done, step_life known.1 known.2 permitted done⟩
  have sound : ∀ s : System τ V, Inv s ∧ Life s → Settled s := fun s known => settled_inv known.1 known.2
  have broken : ∀ (s : System τ V) a s', True → Inv s ∧ Life s → ¬ Permitted s a → step s a = some s' → ¬ Settled s' :=
    fun s a s' _ known forbidden done settled => step_loses known.1 forbidden done settled.toKeeps
  exact visits_iff_guarded preserved sound broken always ⟨startup_inv eventQueue, startup_life eventQueue⟩ ran

end

/-- An event that its poster waits for. -/
def awaited : Request Unit := ⟨some (), 0, none, none, true⟩

theorem events_settle_iff_awaited : ∃ s : System Unit Unit,
    run step (emStartup fun _ => 0) (.post () awaited :: List.replicate 5 (.poster ()) ++ List.replicate 6 .main ++ [.finish 0, .poster ()]) = some s ∧
      s.events 0 = none ∧
      Visits step Settled (emStartup fun _ => 0)
        (.post () awaited :: List.replicate 5 (.poster ()) ++ List.replicate 6 .main ++ [.finish 0, .poster ()]) := by
  refine ⟨_, rfl, rfl, (events_settle_iff (fun _ => 0) rfl).mpr ?_⟩
  simp [Guarded, Permitted, step, enter, emPostEvent, emMainLoop, finishedWithEvent, setPoster, emStartup, awaited, newEvent, eventMaxEvents, next]

end VoxiUtil.EventLife
