import WebServer.Http.RouterRuns

/-!
# Lookups and later registrations

`GetHandler` enters the path it asks for, and `AddRoute(path, handler)` skips a path
that has an entry.  So a lookup can be observed: by a later lookup of the handler that
was skipped.

* `HttpRouter.Thinned` — a run with some of its lookups left out.
* `Thinned.gap` — how far apart the two runs can get in what they see of a path.
* `HttpRouter.lookupsPure_iff` — they give the same replies exactly when no lookup asks
  for a skipped handler.
-/

namespace WebServer

namespace HttpRouter

variable {H : Type}

/-- A call of one of the two forms of `GetHandler`. -/
def Call.IsLookup : Call H → Prop
  | .getHandler _ _ => True
  | .getHandlerDefault _ => True
  | _ => False

/-- The call looks up a method of a path. -/
def Call.Asks (p : ByteString) (m : HttpMethod) : Call H → Prop
  | .getHandler path method => path = p ∧ method = m
  | .getHandlerDefault path => path = p ∧ .get = m
  | _ => False

/-- `Thinned calls fewer`: some of the lookups in `calls` are not made in `fewer`. -/
inductive Thinned : List (Call H) → List (Call H) → Prop
  | nil : Thinned [] []
  | keep {calls fewer : List (Call H)} (c : Call H) (h : Thinned calls fewer) :
      Thinned (calls ++ [c]) (fewer ++ [c])
  | drop {calls fewer : List (Call H)} (c : Call H) (hc : c.IsLookup) (h : Thinned calls fewer) :
      Thinned (calls ++ [c]) fewer

/-- No call of the run returns anything else when lookups before it are left out. -/
def LookupsPure (r : HttpRouter H) (calls : List (Call H)) : Prop :=
  ∀ before c after, calls = before ++ c :: after → ∀ fewer, Thinned before fewer →
    (step (Service.run step r fewer) c).2 = (step (Service.run step r before) c).2

/-- The path was asked for, and nothing else was done with it. -/
def OnlyAskedFor (q : ByteString) (calls : List (Call H)) : Prop :=
  (∃ c ∈ calls, c.path = q) ∧ ∀ c ∈ calls, c.path = q → c.IsLookup

/-- `AddRoute(q, h)` was called when the path had only been asked for, and no
registration for one method of it has followed. -/
def Skipped (q : ByteString) (h : H) (calls : List (Call H)) : Prop :=
  ∃ before after, calls = before ++ .addRoute q (some h) :: after ∧ OnlyAskedFor q before ∧
    ∀ c ∈ after, ¬ c.PerMethodOn q

/-- A lookup in the run asks for a handler whose registration was skipped because of
the lookups before it. -/
def Shadowed (r : HttpRouter H) (calls : List (Call H)) : Prop :=
  ∃ q m h before c after, q ∉ r.routes ∧ calls = before ++ c :: after ∧ Skipped q h before ∧
    c.Asks q m ∧ m ∈ coveredMethods

theorem Thinned.append {calls fewer : List (Call H)} (h : Thinned calls fewer)
    (after : List (Call H)) : Thinned (calls ++ after) (fewer ++ after) := by
  induction after using List.reverseRecOn with
  | nil => rwa [List.append_nil, List.append_nil]
  | append_singleton after c ih =>
    rw [← List.append_assoc, ← List.append_assoc]
    exact .keep c ih

/-- Lookups on one path can be left out altogether. -/
theorem thinned_filter {q : ByteString} {calls : List (Call H)}
    (h : ∀ c ∈ calls, c.path = q → c.IsLookup) :
    Thinned calls (calls.filter fun c => c.path ≠ q) := by
  induction calls using List.reverseRecOn with
  | nil => exact .nil
  | append_singleton calls c ih =>
    rw [List.forall_mem_append, List.forall_mem_singleton] at h
    rw [List.filter_append]
    by_cases hq : c.path = q
    · rw [List.filter_cons_of_neg (by simpa using hq), List.filter_nil, List.append_nil]
      exact .drop c (h.2 hq) (ih h.1)
    · rw [List.filter_cons_of_pos (by simpa using hq), List.filter_nil]
      exact .keep c (ih h.1)

theorem viewStep_lookup {c : Call H} (hc : c.IsLookup)
    (v : Option (HttpMethod → HttpHandler H)) : viewStep v c = some (v.getD fun _ => none) := by
  cases c <;> first | exact hc.elim | rfl

/-- Only a registration for one method changes a path that has an entry. -/
theorem viewStep_some {c : Call H} {q : ByteString} (hq : q = c.path) (hc : ¬ c.PerMethodOn q)
    (f : HttpMethod → HttpHandler H) : viewStep (some f) c = some f := by
  cases c with
  | addRouteMethod path method handler => exact absurd hq.symm hc
  | addRoute path handler => rfl
  | getHandler path method => rfl
  | getHandlerDefault path => rfl

/-- A registration for one method forgets what was there. -/
theorem viewStep_perMethod {c : Call H} {q : ByteString} (hc : c.PerMethodOn q)
    (v v' : Option (HttpMethod → HttpHandler H)) : viewStep v c = viewStep v' c := by
  cases c <;> first | exact hc.elim | rfl

theorem view_run_some {r : HttpRouter H} {q : ByteString} {f : HttpMethod → HttpHandler H}
    (hv : view r q = some f) {calls : List (Call H)} (hcalls : ∀ c ∈ calls, ¬ c.PerMethodOn q) :
    view (Service.run step r calls) q = some f := by
  induction calls using List.reverseRecOn with
  | nil => exact hv
  | append_singleton calls c ih =>
    rw [List.forall_mem_append, List.forall_mem_singleton] at hcalls
    rw [view_run_append, ih hcalls.1]
    by_cases hq : q = c.path
    · rw [if_pos hq, viewStep_some hq hcalls.2]
    · rw [if_neg hq]

theorem view_run_addRoute {r : HttpRouter H} {q : ByteString} {h : H}
    {before after : List (Call H)} (hafter : ∀ c ∈ after, ¬ c.PerMethodOn q) :
    view (Service.run step r (before ++ .addRoute q (some h) :: after)) q =
      viewStep (view (Service.run step r before) q) (.addRoute q (some h)) := by
  rw [Service.run_append, Service.run_cons]
  exact view_run_some (view_addRoute _ q (some h)) hafter

theorem view_run_onlyAskedFor {r : HttpRouter H} {q : ByteString} (hq : q ∉ r.routes)
    {calls : List (Call H)} (hcalls : OnlyAskedFor q calls) :
    view (Service.run step r calls) q = some fun _ => none := by
  induction calls using List.reverseRecOn with
  | nil =>
    obtain ⟨⟨c, hc, -⟩, -⟩ := hcalls
    exact absurd hc List.not_mem_nil
  | append_singleton calls c ih =>
    obtain ⟨⟨c', hc', hq'⟩, hall⟩ := hcalls
    rw [List.forall_mem_append, List.forall_mem_singleton] at hall
    rw [view_run_append]
    by_cases hv : view (Service.run step r calls) q = none
    · have hfresh := (view_run_eq_none_iff.1 hv).2
      have hc : c.path = q := by
        rcases List.mem_append.1 hc' with hc' | hc'
        · exact absurd hq' (hfresh c' hc')
        · rw [← List.mem_singleton.1 hc', hq']
      rw [if_pos hc.symm, hv, viewStep_lookup (hall.2 hc)]
      rfl
    · have hasked : ∃ c ∈ calls, c.path = q := by
        by_contra hno
        exact hv (view_run_eq_none_iff.2
          ⟨view_eq_none_iff.2 hq, fun c hc hcq => hno ⟨c, hc, hcq⟩⟩)
      rw [ih ⟨hasked, hall.1⟩]
      by_cases hc : q = c.path
      · rw [if_pos hc, viewStep_lookup (hall.2 hc.symm)]
        rfl
      · rw [if_neg hc]

theorem reply_of_asks {c : Call H} {q : ByteString} {m : HttpMethod} (hc : c.Asks q m)
    (r : HttpRouter H) : (step r c).2 = some (((view r q).getD fun _ => none) m) := by
  cases c with
  | getHandler path method =>
    obtain ⟨rfl, rfl⟩ := hc
    exact congrArg some (getHandler_snd r path method)
  | getHandlerDefault path =>
    obtain ⟨rfl, rfl⟩ := hc
    exact congrArg some (getHandler_snd r path .get)
  | addRoute path handler => exact hc.elim
  | addRouteMethod path method handler => exact hc.elim

/-! ## Two runs side by side -/

/-- What is seen of the path `q` in a run and in the run with fewer lookups. -/
inductive Gap (r : HttpRouter H) (q : ByteString) (calls : List (Call H)) :
    Option (HttpMethod → HttpHandler H) → Option (HttpMethod → HttpHandler H) → Prop
  | same (v : Option (HttpMethod → HttpHandler H)) : Gap r q calls v v
  /-- The path was entered by the lookups that were left out. -/
  | entered (hq : q ∉ r.routes) (hcalls : OnlyAskedFor q calls) :
      Gap r q calls (some fun _ => none) none
  /-- A registration of the path was skipped because of them. -/
  | skipped (h : H) (hq : q ∉ r.routes) (hcalls : Skipped q h calls) :
      Gap r q calls (some fun _ => none)
        (some fun m => if m ∈ coveredMethods then some h else none)

theorem OnlyAskedFor.append {q : ByteString} {calls : List (Call H)} (h : OnlyAskedFor q calls)
    {c : Call H} (hc : c.path = q → c.IsLookup) : OnlyAskedFor q (calls ++ [c]) := by
  obtain ⟨⟨c', hc', hq'⟩, hall⟩ := h
  exact ⟨⟨c', by simp [hc'], hq'⟩,
    List.forall_mem_append.2 ⟨hall, List.forall_mem_singleton.2 hc⟩⟩

theorem Skipped.append {q : ByteString} {h : H} {calls : List (Call H)} (hs : Skipped q h calls)
    {c : Call H} (hc : ¬ c.PerMethodOn q) : Skipped q h (calls ++ [c]) := by
  obtain ⟨before, after, rfl, hasked, hafter⟩ := hs
  exact ⟨before, after ++ [c], by simp, hasked,
    List.forall_mem_append.2 ⟨hafter, List.forall_mem_singleton.2 hc⟩⟩

/-- A call on another path does not change the gap. -/
theorem Gap.append_of_ne {r : HttpRouter H} {q : ByteString} {calls : List (Call H)}
    {v v' : Option (HttpMethod → HttpHandler H)} (h : Gap r q calls v v') {c : Call H}
    (hc : q ≠ c.path) : Gap r q (calls ++ [c]) v v' := by
  cases h with
  | same => exact .same v
  | entered hq hcalls => exact .entered hq (hcalls.append fun hcq => absurd hcq.symm hc)
  | skipped h hq hcalls => exact .skipped h hq (hcalls.append fun hp => hc hp.path_eq.symm)

/-- A call on the path that is made in both runs. -/
theorem Gap.keep {r : HttpRouter H} {q : ByteString} {calls : List (Call H)}
    {v v' : Option (HttpMethod → HttpHandler H)} (h : Gap r q calls v v') {c : Call H}
    (hc : q = c.path) : Gap r q (calls ++ [c]) (viewStep v c) (viewStep v' c) := by
  by_cases hp : c.PerMethodOn q
  · rw [viewStep_perMethod hp v v']
    exact .same _
  · cases h with
    | same => exact .same _
    | skipped h hq hcalls =>
      rw [viewStep_some hc hp, viewStep_some hc hp]
      exact .skipped h hq (hcalls.append hp)
    | entered hq hcalls =>
      rw [viewStep_some hc hp]
      cases c with
      | addRouteMethod path method handler => exact absurd hc.symm hp
      | getHandler path method => exact .same _
      | getHandlerDefault path => exact .same _
      | addRoute path handler =>
        obtain rfl : q = path := hc
        cases handler with
        | none =>
          have hsame : viewStep none (.addRoute q (none : HttpHandler H)) =
              some fun _ => none := by simp [viewStep]
          rw [hsame]
          exact .same _
        | some h => exact .skipped h hq ⟨calls, [], rfl, hcalls, by simp⟩

theorem Call.IsLookup.not_perMethodOn {c : Call H} (hc : c.IsLookup) (q : ByteString) :
    ¬ c.PerMethodOn q := by
  cases c <;> first | exact hc.elim | exact id

/-- A lookup on the path that is left out of the second run. -/
theorem Gap.drop {r : HttpRouter H} {q : ByteString} {calls : List (Call H)}
    {v v' : Option (HttpMethod → HttpHandler H)} (h : Gap r q calls v v')
    (hv : v = none → q ∉ r.routes ∧ ∀ c ∈ calls, c.path ≠ q) {c : Call H} (hc : q = c.path)
    (hlookup : c.IsLookup) : Gap r q (calls ++ [c]) (viewStep v c) v' := by
  rw [viewStep_lookup hlookup]
  cases h with
  | same =>
    cases v with
    | some f => exact .same _
    | none =>
      obtain ⟨hq, hfresh⟩ := hv rfl
      refine .entered hq ⟨⟨c, by simp, hc.symm⟩, List.forall_mem_append.2 ⟨?_, ?_⟩⟩
      · exact fun c' hc' hq' => absurd hq' (hfresh c' hc')
      · exact List.forall_mem_singleton.2 fun _ => hlookup
  | entered hq hcalls => exact .entered hq (hcalls.append fun _ => hlookup)
  | skipped h hq hcalls =>
    exact .skipped h hq (hcalls.append (hlookup.not_perMethodOn q))

theorem Thinned.gap {calls fewer : List (Call H)} (h : Thinned calls fewer) (r : HttpRouter H)
    (q : ByteString) :
    Gap r q calls (view (Service.run step r calls) q) (view (Service.run step r fewer) q) := by
  induction h with
  | nil => exact .same _
  | keep c _ ih =>
    rw [view_run_append, view_run_append]
    by_cases hc : q = c.path
    · rw [if_pos hc, if_pos hc]
      exact ih.keep hc
    · rw [if_neg hc, if_neg hc]
      exact ih.append_of_ne hc
  | drop c hlookup _ ih =>
    rw [view_run_append]
    by_cases hc : q = c.path
    · rw [if_pos hc]
      apply ih.drop _ hc hlookup
      intro hv
      obtain ⟨hview, hfresh⟩ := view_run_eq_none_iff.1 hv
      exact ⟨view_eq_none_iff.1 hview, hfresh⟩
    · rw [if_neg hc]
      exact ih.append_of_ne hc

/-- A lookup tells the runs apart only if it asks for a skipped handler. -/
theorem Gap.lookup_eq {r : HttpRouter H} {q : ByteString} {calls : List (Call H)}
    {v v' : Option (HttpMethod → HttpHandler H)} (h : Gap r q calls v v') {m : HttpMethod}
    (hm : ∀ h, q ∉ r.routes → Skipped q h calls → m ∉ coveredMethods) :
    (v'.getD fun _ => none) m = (v.getD fun _ => none) m := by
  cases h with
  | same => rfl
  | entered hq hcalls => rfl
  | skipped h hq hcalls => exact if_neg (hm h hq hcalls)

theorem Call.IsLookup.asks {c : Call H} (hc : c.IsLookup) : ∃ m, c.Asks c.path m := by
  cases c with
  | getHandler path method => exact ⟨method, rfl, rfl⟩
  | getHandlerDefault path => exact ⟨.get, rfl, rfl⟩
  | addRoute path handler => exact hc.elim
  | addRouteMethod path method handler => exact hc.elim

theorem reply_of_not_isLookup {c : Call H} (hc : ¬ c.IsLookup) (r : HttpRouter H) :
    (step r c).2 = none := by
  cases c <;> first | rfl | exact absurd trivial hc

/-- **Lookups are unobservable exactly when no lookup asks for a handler that an earlier
one kept from being registered.** -/
theorem lookupsPure_iff {r : HttpRouter H} {calls : List (Call H)} :
    LookupsPure r calls ↔ ¬ Shadowed r calls := by
  constructor
  · rintro hpure ⟨q, m, h, before, c, after, hq, hcalls, ⟨early, late, hbefore, hasked, hlate⟩,
      hasks, hm⟩
    have hthin : Thinned before
        ((early.filter fun c => c.path ≠ q) ++ .addRoute q (some h) :: late) := by
      rw [hbefore]
      exact (thinned_filter hasked.2).append _
    have hsame := hpure before c after hcalls _ hthin
    have hskipped : view (Service.run step r before) q = some fun _ => none := by
      rw [hbefore, view_run_addRoute hlate, view_run_onlyAskedFor hq hasked]
      rfl
    have hinstalled : view (Service.run step r
        ((early.filter fun c => c.path ≠ q) ++ .addRoute q (some h) :: late)) q =
          some fun m => if m ∈ coveredMethods then some h else none := by
      have hfresh : view (Service.run step r (early.filter fun c => c.path ≠ q)) q = none := by
        refine view_run_eq_none_iff.2 ⟨view_eq_none_iff.2 hq, fun c hc => ?_⟩
        simpa using (List.mem_filter.1 hc).2
      rw [view_run_addRoute hlate, hfresh]
      rfl
    rw [reply_of_asks hasks, reply_of_asks hasks, hskipped, hinstalled] at hsame
    simp [hm] at hsame
  · intro hno before c after hcalls fewer hthin
    by_cases hlookup : c.IsLookup
    · obtain ⟨m, hasks⟩ := hlookup.asks
      rw [reply_of_asks hasks, reply_of_asks hasks]
      refine congrArg some ((hthin.gap r c.path).lookup_eq fun h hq hskipped hm => ?_)
      exact hno ⟨c.path, m, h, before, c, after, hq, hcalls, hskipped, hasks, hm⟩
    · rw [reply_of_not_isLookup hlookup, reply_of_not_isLookup hlookup]

/-- A request for `/` that arrives before the handler of `/` is registered. -/
theorem not_lookupsPure :
    ¬ LookupsPure new [.getHandler (bytes "/") .get, .addRoute (bytes "/") (some 1),
      .getHandler (bytes "/") .get] := by
  intro h
  have hnone : Thinned [Call.getHandler (bytes "/") .get] ([] : List (Call ℕ)) :=
    @Thinned.drop ℕ [] [] _ trivial .nil
  have hthin := hnone.append [.addRoute (bytes "/") (some 1)]
  exact absurd (h _ _ [] rfl _ hthin) (by decide)

end HttpRouter

end WebServer
