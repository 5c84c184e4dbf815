import WebServer.Library.Service
import WebServer.Http.Router

/-!
# Runs of the router

The router as a service: registrations and lookups in any order.  What a lookup sees
of a path is its `view`, and a call on one path leaves the view of every other path
alone (`view_step`), so questions about runs become questions about the calls on one
path.

* `HttpRouter.no_misrouting` — where a handler that `GetHandler` returns was registered.
* `HttpRouter.undisturbed_iff` — a registration for one method takes the whole path,
  so it spares the others only when there is nothing to spare.
-/

namespace WebServer

namespace HttpRouter

variable {H : Type}

/-- A call of one of the four member functions. -/
inductive Call (H : Type)
  | addRoute (path : ByteString) (handler : HttpHandler H)
  | addRouteMethod (path : ByteString) (method : HttpMethod) (handler : HttpHandler H)
  | getHandler (path : ByteString) (method : HttpMethod)
  | getHandlerDefault (path : ByteString)

/-- The path a call is about. -/
def Call.path : Call H → ByteString
  | .addRoute path _ => path
  | .addRouteMethod path _ _ => path
  | .getHandler path _ => path
  | .getHandlerDefault path => path

/-- One call; a registration has nothing to return. -/
def step (r : HttpRouter H) : Call H → HttpRouter H × Option (HttpHandler H)
  | .addRoute path handler => (r.addRoute path handler, none)
  | .addRouteMethod path method handler => (r.addRouteMethod path method handler, none)
  | .getHandler path method => ((r.getHandler path method).1, some (r.getHandler path method).2)
  | .getHandlerDefault path => ((r.getHandlerDefault path).1, some (r.getHandlerDefault path).2)

/-! ## What lookups see -/

/-- The methods `AddRoute(path, handler)` registers for. -/
def coveredMethods : List HttpMethod := [.get, .post, .delete, .put]

/-- The handlers of a route, the empty function where it has no entry. -/
def handlers (route : Route H) (method : HttpMethod) : HttpHandler H :=
  (route.lookup method).getD none

/-- What lookups on a path see: `none` for a path without an entry. -/
def view (r : HttpRouter H) (path : ByteString) : Option (HttpMethod → HttpHandler H) :=
  (r.routes.lookup path).map handlers

/-- The view of a path after a call on it. -/
def viewStep (v : Option (HttpMethod → HttpHandler H)) :
    Call H → Option (HttpMethod → HttpHandler H)
  | .addRoute _ handler => some (v.getD fun m => if m ∈ coveredMethods then handler else none)
  | .addRouteMethod _ method handler => some fun m => if m = method then handler else none
  | .getHandler _ _ => some (v.getD fun _ => none)
  | .getHandlerDefault _ => some (v.getD fun _ => none)

theorem view_eq_none_iff {r : HttpRouter H} {path : ByteString} :
    view r path = none ↔ path ∉ r.routes := by
  rw [view, Option.map_eq_none_iff, Finmap.lookup_eq_none]

theorem view_addRoute (r : HttpRouter H) (path : ByteString) (handler : HttpHandler H) :
    view (r.addRoute path handler) path = viewStep (view r path) (.addRoute path handler) := by
  rw [addRoute]
  by_cases hmem : path ∈ r.routes
  · obtain ⟨route, hroute⟩ := Finmap.mem_iff.1 hmem
    rw [if_pos hmem, view, hroute]
    rfl
  · rw [if_neg hmem, view_eq_none_iff.2 hmem, view, Finmap.lookup_insert]
    simp only [Option.map_some, viewStep, Option.getD_none, Option.some.injEq]
    funext m
    cases m <;> simp [handlers, coveredMethods]

theorem view_addRouteMethod (r : HttpRouter H) (path : ByteString) (method : HttpMethod)
    (handler : HttpHandler H) :
    view (r.addRouteMethod path method handler) path =
      some fun m => if m = method then handler else none := by
  rw [addRouteMethod, view, Finmap.lookup_insert, Option.map_some, Option.some.injEq]
  funext m
  rw [handlers]
  by_cases hm : m = method
  · rw [hm, Finmap.lookup_insert, if_pos rfl, Option.getD_some]
  · rw [Finmap.lookup_insert_of_ne _ hm, if_neg hm]
    rfl

/-- What `GetHandler` returns is what is seen of the path. -/
theorem getHandler_snd (r : HttpRouter H) (path : ByteString) (method : HttpMethod) :
    (r.getHandler path method).2 = ((view r path).getD fun _ => none) method := by
  simp only [getHandler, Table.subscript_snd, view]
  cases r.routes.lookup path with
  | none => rfl
  | some route => rfl

/-- A lookup enters the path, with nothing to see in it. -/
theorem view_getHandler (r : HttpRouter H) (path : ByteString) (method : HttpMethod) :
    view (r.getHandler path method).1 path = some ((view r path).getD fun _ => none) := by
  simp only [getHandler, view, Finmap.lookup_insert, Option.map_some, Table.subscript_snd]
  congr 1
  funext m
  rw [handlers, Table.getD_lookup_subscript]
  cases r.routes.lookup path with
  | none => rfl
  | some route => rfl

theorem view_addRoute_of_ne (r : HttpRouter H) {path q : ByteString} (h : q ≠ path)
    (handler : HttpHandler H) : view (r.addRoute path handler) q = view r q := by
  rw [addRoute]
  by_cases hmem : path ∈ r.routes
  · rw [if_pos hmem]
  · rw [if_neg hmem, view, Finmap.lookup_insert_of_ne _ h, view]

theorem view_addRouteMethod_of_ne (r : HttpRouter H) {path q : ByteString} (h : q ≠ path)
    (method : HttpMethod) (handler : HttpHandler H) :
    view (r.addRouteMethod path method handler) q = view r q := by
  rw [addRouteMethod, view, Finmap.lookup_insert_of_ne _ h, view]

theorem view_getHandler_of_ne (r : HttpRouter H) {path q : ByteString} (h : q ≠ path)
    (method : HttpMethod) : view (r.getHandler path method).1 q = view r q := by
  simp only [getHandler, view]
  rw [Finmap.lookup_insert_of_ne _ h, Table.lookup_subscript, if_neg h]

/-- **What one call does to what is seen of a path.** -/
theorem view_step (r : HttpRouter H) (c : Call H) (q : ByteString) :
    view (step r c).1 q = if q = c.path then viewStep (view r q) c else view r q := by
  by_cases h : q = c.path
  · rw [if_pos h, h]
    cases c with
    | addRoute path handler => exact view_addRoute r path handler
    | addRouteMethod path method handler => exact view_addRouteMethod r path method handler
    | getHandler path method => exact view_getHandler r path method
    | getHandlerDefault path => exact view_getHandler r path .get
  · rw [if_neg h]
    cases c with
    | addRoute path handler => exact view_addRoute_of_ne r h handler
    | addRouteMethod path method handler => exact view_addRouteMethod_of_ne r h method handler
    | getHandler path method => exact view_getHandler_of_ne r h method
    | getHandlerDefault path => exact view_getHandler_of_ne r h .get

/-- What is seen of a path depends on the calls on that path alone. -/
theorem view_run (r : HttpRouter H) (calls : List (Call H)) (q : ByteString) :
    view (Service.run step r calls) q =
      (calls.filter fun c => q = c.path).foldl viewStep (view r q) := by
  induction calls generalizing r with
  | nil => rfl
  | cons c calls ih =>
    rw [Service.run_cons, ih, view_step]
    by_cases h : q = c.path
    · rw [if_pos h, List.filter_cons_of_pos (by simpa using h), List.foldl_cons]
    · rw [if_neg h, List.filter_cons_of_neg (by simpa using h)]

/-! ## No misrouting -/

/-- A registration of the path for one method. -/
def Call.PerMethodOn (p : ByteString) : Call H → Prop
  | .addRouteMethod path _ _ => path = p
  | _ => False

/-- A registration of the path for all the covered methods. -/
def Call.AllMethodsOn (p : ByteString) : Call H → Prop
  | .addRoute path _ => path = p
  | _ => False

theorem Call.PerMethodOn.path_eq {p : ByteString} {c : Call H} (h : c.PerMethodOn p) :
    c.path = p := by
  cases c <;> first | exact h | exact h.elim

theorem Call.AllMethodsOn.path_eq {p : ByteString} {c : Call H} (h : c.AllMethodsOn p) :
    c.path = p := by
  cases c <;> first | exact h | exact h.elim

/-- The registration that a handler found under a path and a method comes from. -/
inductive Registered (calls : List (Call H)) (p : ByteString) (m : HttpMethod) (h : H) : Prop
  | perMethod (before after : List (Call H))
      (hcalls : calls = before ++ .addRouteMethod p m (some h) :: after)
      (hlatest : ∀ c ∈ after, ¬ c.PerMethodOn p)
  | allMethods (before after : List (Call H))
      (hcalls : calls = before ++ .addRoute p (some h) :: after)
      (hfirst : ∀ c ∈ before, ¬ c.AllMethodsOn p)
      (hnone : ∀ c ∈ calls, ¬ c.PerMethodOn p)
      (hcovered : m ∈ coveredMethods)

theorem Registered.append {calls : List (Call H)} {p : ByteString} {m : HttpMethod} {h : H}
    (hr : Registered calls p m h) {c : Call H} (hc : ¬ c.PerMethodOn p) :
    Registered (calls ++ [c]) p m h := by
  cases hr with
  | perMethod before after hcalls hlatest =>
    refine .perMethod before (after ++ [c]) (by rw [hcalls]; simp) ?_
    exact List.forall_mem_append.2 ⟨hlatest, List.forall_mem_singleton.2 hc⟩
  | allMethods before after hcalls hfirst hnone hcovered =>
    refine .allMethods before (after ++ [c]) (by rw [hcalls]; simp) hfirst ?_ hcovered
    exact List.forall_mem_append.2 ⟨hnone, List.forall_mem_singleton.2 hc⟩

theorem viewStep_ne_none (v : Option (HttpMethod → HttpHandler H)) (c : Call H) :
    viewStep v c ≠ none := by
  cases c <;> exact Option.some_ne_none _

theorem view_run_append (r : HttpRouter H) (calls : List (Call H)) (c : Call H)
    (q : ByteString) :
    view (Service.run step r (calls ++ [c])) q =
      if q = c.path then viewStep (view (Service.run step r calls) q) c
      else view (Service.run step r calls) q := by
  rw [Service.run_append, Service.run_cons, Service.run_nil, view_step]

/-- A path has an entry as soon as a call was made on it. -/
theorem view_run_eq_none_iff {r : HttpRouter H} {calls : List (Call H)} {p : ByteString} :
    view (Service.run step r calls) p = none ↔
      view r p = none ∧ ∀ c ∈ calls, c.path ≠ p := by
  induction calls using List.reverseRecOn with
  | nil => simp
  | append_singleton calls c ih =>
    rw [view_run_append, List.forall_mem_append, List.forall_mem_singleton]
    by_cases hp : p = c.path
    · rw [if_pos hp]
      exact iff_of_false (viewStep_ne_none _ _) fun hall => hall.2.2 hp.symm
    · rw [if_neg hp, ih, ← and_assoc]
      exact (and_iff_left fun h => hp h.symm).symm

/-- Where a handler comes from that is seen after a call on its path. -/
theorem viewStep_cases {v : Option (HttpMethod → HttpHandler H)} {c : Call H}
    {f : HttpMethod → HttpHandler H} {m : HttpMethod} {h : H} (hview : viewStep v c = some f)
    (hf : f m = some h) :
    (∃ f', v = some f' ∧ f' m = some h ∧ ∀ p, ¬ c.PerMethodOn p) ∨
      (v = none ∧ c = .addRoute c.path (some h) ∧ m ∈ coveredMethods) ∨
      c = .addRouteMethod c.path m (some h) := by
  cases c with
  | addRoute path handler =>
    cases hview
    cases v with
    | some f' => exact Or.inl ⟨f', rfl, hf, fun _ => id⟩
    | none =>
      by_cases hm : m ∈ coveredMethods
      · simp only [Option.getD_none, if_pos hm] at hf
        exact Or.inr (Or.inl ⟨rfl, by rw [hf, Call.path], hm⟩)
      · simp [if_neg hm] at hf
  | addRouteMethod path method handler =>
    cases hview
    by_cases hm : m = method
    · simp only [if_pos hm] at hf
      exact Or.inr (Or.inr (by rw [hf, hm, Call.path]))
    · simp [if_neg hm] at hf
  | getHandler path method =>
    cases hview
    cases v with
    | some f' => exact Or.inl ⟨f', rfl, hf, fun _ => id⟩
    | none => cases hf
  | getHandlerDefault path =>
    cases hview
    cases v with
    | some f' => exact Or.inl ⟨f', rfl, hf, fun _ => id⟩
    | none => cases hf

theorem registered_of_view {calls : List (Call H)} {p : ByteString} {m : HttpMethod} {h : H}
    {f : HttpMethod → HttpHandler H} (hview : view (Service.run step new calls) p = some f)
    (hf : f m = some h) : Registered calls p m h := by
  induction calls using List.reverseRecOn generalizing f with
  | nil => cases hview
  | append_singleton calls c ih =>
    rw [view_run_append] at hview
    by_cases hp : p = c.path
    · rw [if_pos hp] at hview
      rcases viewStep_cases hview hf with ⟨f', hv, hf', hc⟩ | ⟨hv, hc, hm⟩ | hc
      · exact (ih hv hf').append (hc p)
      · -- the first call on the path
        have hfresh := (view_run_eq_none_iff.1 hv).2
        rw [← hp] at hc
        refine .allMethods calls [] (by rw [hc]) (fun c' hc' h' => hfresh c' hc' h'.path_eq) ?_ hm
        refine List.forall_mem_append.2 ⟨fun c' hc' h' => hfresh c' hc' h'.path_eq, ?_⟩
        rw [hc]
        exact List.forall_mem_singleton.2 id
      · rw [← hp] at hc
        exact .perMethod calls [] (by rw [hc]) (fun c' hc' => absurd hc' List.not_mem_nil)
    · rw [if_neg hp] at hview
      exact (ih hview hf).append fun hc => hp hc.path_eq.symm

/-- **No misrouting.**  A handler that `GetHandler` returns was registered for the very
path it is asked for, by the registration that is in force; and what it returns depends
only on the calls on that path. -/
theorem no_misrouting :
    (∀ (calls : List (Call H)) (p : ByteString) (m : HttpMethod) (h : H),
      ((Service.run step new calls).getHandler p m).2 = some h → Registered calls p m h) ∧
    ∀ (r : HttpRouter H) (calls : List (Call H)) (p : ByteString) (m : HttpMethod),
      ((Service.run step r calls).getHandler p m).2 =
        ((Service.run step r (calls.filter fun c => p = c.path)).getHandler p m).2 := by
  constructor
  · intro calls p m h hget
    rw [getHandler_snd] at hget
    cases hv : view (Service.run step new calls) p with
    | none =>
      rw [hv] at hget
      cases hget
    | some f =>
      rw [hv] at hget
      exact registered_of_view hv hget
  · intro r calls p m
    rw [getHandler_snd, getHandler_snd, view_run, view_run, List.filter_filter]
    simp only [Bool.and_self]

/-- A path with one registration, found after a registration on another path. -/
theorem no_misrouting_two :
    Registered [.addRouteMethod (bytes "/a") .get (some 1), .addRoute (bytes "/b") (some 2)]
      (bytes "/a") .get 1 :=
  no_misrouting.1 _ _ _ _ (by decide)

/-! ## Registrations for one method -/

/-- After the registration every other lookup returns what it would have returned before. -/
def Undisturbed (r : HttpRouter H) (p : ByteString) (m : HttpMethod) (handler : HttpHandler H) :
    Prop :=
  ∀ p' m', (p', m') ≠ (p, m) →
    ((r.addRouteMethod p m handler).getHandler p' m').2 = (r.getHandler p' m').2

/-- No other method of the path has a handler. -/
def Sole (r : HttpRouter H) (p : ByteString) (m : HttpMethod) : Prop :=
  ∀ route, r.routes.lookup p = some route → ∀ m', m' ≠ m → handlers route m' = none

/-- A registration for one method: its path, method and handler. -/
abbrev Registration (H : Type) := ByteString × HttpMethod × HttpHandler H

/-- The calls that make the registrations. -/
def registrationCalls (regs : List (Registration H)) : List (Call H) :=
  regs.map fun x => .addRouteMethod x.1 x.2.1 x.2.2

/-- After the registrations, made one after the other, each of them is found. -/
def AllFound (r : HttpRouter H) (regs : List (Registration H)) : Prop :=
  ∀ x ∈ regs,
    ((Service.run step r (registrationCalls regs)).getHandler x.1 x.2.1).2 = x.2.2

/-- A registration with another one after it on the same path has the empty handler. -/
def OverwritesNothing (regs : List (Registration H)) : Prop :=
  ∀ before x after, regs = before ++ x :: after → (∃ y ∈ after, y.1 = x.1) → x.2.2 = none

theorem getHandler_addRouteMethod (r : HttpRouter H) (p : ByteString) (m m' : HttpMethod)
    (handler : HttpHandler H) :
    ((r.addRouteMethod p m handler).getHandler p m').2 = if m' = m then handler else none := by
  rw [getHandler_snd, view_addRouteMethod, Option.getD_some]

/-- A registration is found as long as no other one is made on its path. -/
theorem getHandler_registrationCalls (r : HttpRouter H) (x : Registration H)
    {after : List (Registration H)} (hdistinct : ∀ y ∈ after, (y.1, y.2.1) ≠ (x.1, x.2.1)) :
    ((Service.run step (r.addRouteMethod x.1 x.2.1 x.2.2) (registrationCalls after)).getHandler
      x.1 x.2.1).2 = if ∃ y ∈ after, y.1 = x.1 then none else x.2.2 := by
  induction after using List.reverseRecOn with
  | nil =>
    rw [if_neg (by simp)]
    exact (getHandler_addRouteMethod r x.1 x.2.1 x.2.1 x.2.2).trans (if_pos rfl)
  | append_singleton after y ih =>
    rw [registrationCalls, List.map_append, Service.run_append]
    by_cases hy : y.1 = x.1
    · have hm : x.2.1 ≠ y.2.1 := fun hm =>
        hdistinct y (by simp) (Prod.ext hy hm.symm)
      rw [if_pos ⟨y, by simp, hy⟩, ← hy]
      exact (getHandler_addRouteMethod _ y.1 y.2.1 x.2.1 y.2.2).trans (if_neg hm)
    · have ih' := ih fun z hz => hdistinct z (by simp [hz])
      rw [getHandler_snd] at ih' ⊢
      have hview := view_addRouteMethod_of_ne
        (Service.run step (r.addRouteMethod x.1 x.2.1 x.2.2) (registrationCalls after))
        (Ne.symm hy) y.2.1 y.2.2
      have hlater : (∃ z ∈ after ++ [y], z.1 = x.1) ↔ ∃ z ∈ after, z.1 = x.1 := by
        simp [or_and_right, exists_or, hy]
      refine (congrArg (fun v => (v.getD fun _ => none) x.2.1) hview).trans (ih'.trans ?_)
      simp only [hlater]

/-- **A registration for one method takes the whole path.**  It leaves the other lookups
alone exactly when no other method of the path has a handler; so of registrations for
distinct pairs all are found exactly when none with a handler is followed by another on
its path. -/
theorem undisturbed_iff :
    (∀ (r : HttpRouter H) (p : ByteString) (m : HttpMethod) (handler : HttpHandler H),
      Undisturbed r p m handler ↔ Sole r p m) ∧
    ∀ (r : HttpRouter H) (regs : List (Registration H)),
      (regs.map fun x => (x.1, x.2.1)).Nodup → (AllFound r regs ↔ OverwritesNothing regs) := by
  constructor
  · intro r p m handler
    constructor
    · intro h route hroute m' hm
      have hsame := h p m' (fun heq => hm (congrArg Prod.snd heq))
      rw [getHandler_addRouteMethod, if_neg hm, getHandler_snd, view, hroute] at hsame
      exact hsame.symm
    · intro h p' m' hne
      by_cases hp : p' = p
      · subst hp
        have hm : m' ≠ m := fun hm => hne (by rw [hm])
        rw [getHandler_addRouteMethod, if_neg hm, getHandler_snd, view]
        cases hroute : r.routes.lookup p' with
        | none => rfl
        | some route => exact (h route hroute m' hm).symm
      · rw [getHandler_snd, getHandler_snd, view_addRouteMethod_of_ne r hp]
  · intro r regs hnd
    have hfind : ∀ before x after, regs = before ++ x :: after →
        ((Service.run step r (registrationCalls regs)).getHandler x.1 x.2.1).2 =
          if ∃ y ∈ after, y.1 = x.1 then none else x.2.2 := by
      rintro before x after rfl
      rw [List.map_append, List.map_cons] at hnd
      have hx := (List.nodup_cons.1 (List.nodup_append.1 hnd).2.1).1
      rw [registrationCalls, List.map_append, Service.run_append, List.map_cons,
        Service.run_cons]
      apply getHandler_registrationCalls
      exact fun y hy heq => hx (List.mem_map.2 ⟨y, hy, heq⟩)
    constructor
    · intro h before x after hregs hlater
      have hx := h x (by rw [hregs]; simp)
      rw [hfind before x after hregs, if_pos hlater] at hx
      exact hx.symm
    · intro h x hx
      obtain ⟨before, after, hregs⟩ := List.append_of_mem hx
      rw [hfind before x after hregs]
      by_cases hlater : ∃ y ∈ after, y.1 = x.1
      · rw [if_pos hlater, h before x after hregs hlater]
      · rw [if_neg hlater]

/-- Two registrations on different paths. -/
theorem undisturbed_iff_two :
    AllFound new [(bytes "/a", .get, some 1), (bytes "/b", .get, some 2)] ↔
      OverwritesNothing [(bytes "/a", .get, some 1), (bytes "/b", .get, some 2)] :=
  undisturbed_iff.2 _ _ (by decide)

/-- With `GET /` registered, the registration of `POST /` removes it. -/
theorem not_undisturbed :
    ¬ Undisturbed (Service.run step new [.addRouteMethod (bytes "/") .get (some 1)]) (bytes "/")
        .post (some 2) ∧
      ¬ AllFound new [(bytes "/", .get, some 1), (bytes "/", .post, some 2)] := by
  constructor
  · intro h
    exact absurd (h (bytes "/") .get (by decide)) (by decide)
  · intro h
    exact absurd (h (bytes "/", .get, some 1) (by simp)) (by decide)

end HttpRouter

end WebServer
