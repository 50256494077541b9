import DeployInventory.NameMap
/-!
# Proofs.Replay — edits whose repetition changes nothing

A batch settles a state when applying it again changes nothing. A state is taken apart into views: of the edits of a
batch a view sees those that are routed to it (`foldl_view`), so what the batch does to the state settles when what it
does to every view does (`view_settles`). Values that are overwritten settle (`settles_overwrite`), and so do tables and
lists with named members whose members do (`NameMap.settles_touch`, `settles_touchNamed`).
-/
namespace DeployInventory

universe u v w x y z

/-- **A batch settles a state**: applied a second time it changes nothing. -/
def Settles {σ : Type u} {ε : Type v} (act : σ → ε → σ) (batch : List ε) (s : σ) : Prop :=
  batch.foldl act (batch.foldl act s) = batch.foldl act s

section View

variable {σ : Type u} {ε : Type v} {τ : Type w} {δ : Type x} {act : σ → ε → σ} (P : σ → Prop) (view : σ → τ)
  (route : ε → Option δ) (act' : τ → δ → τ)

theorem foldl_keeps : ∀ {batch : List ε}, (∀ s, P s → ∀ r ∈ batch, P (act s r)) → ∀ {s : σ}, P s →
    P (batch.foldl act s)
  | [], _, _, hs => hs
  | r :: _, hP, _, hs =>
    foldl_keeps (fun s hs q hq => hP s hs q (List.mem_cons_of_mem _ hq)) (hP _ hs r List.mem_cons_self)

/-- **What a batch does to a view**: what the edits routed to it do. -/
theorem foldl_view : ∀ {batch : List ε}, (∀ s, P s → ∀ r ∈ batch, P (act s r)) →
    (∀ s, P s → ∀ r ∈ batch, view (act s r) = (route r).elim (view s) (act' (view s))) →
    ∀ {s : σ}, P s → view (batch.foldl act s) = (batch.filterMap route).foldl act' (view s)
  | [], _, _, _, _ => rfl
  | r :: batch, hP, hview, s, hs => by
    rw [List.foldl_cons, foldl_view (fun s hs q hq => hP s hs q (List.mem_cons_of_mem _ hq))
      (fun s hs q hq => hview s hs q (List.mem_cons_of_mem _ hq)) (hP s hs r List.mem_cons_self),
      hview s hs r List.mem_cons_self]
    cases hr : route r with
    | none => rw [List.filterMap_cons_none hr, Option.elim_none]
    | some x => rw [List.filterMap_cons_some hr, List.foldl_cons, Option.elim_some]

/-- **A view that the edits routed to it settle is not changed by the batch's repetition.** -/
theorem view_settles {batch : List ε} (hP : ∀ s, P s → ∀ r ∈ batch, P (act s r))
    (hview : ∀ s, P s → ∀ r ∈ batch, view (act s r) = (route r).elim (view s) (act' (view s)))
    {s : σ} (hs : P s) (hset : Settles act' (batch.filterMap route) (view s)) :
    view (batch.foldl act (batch.foldl act s)) = view (batch.foldl act s) := by
  rw [foldl_view P view route act' hP hview (foldl_keeps P hP hs), foldl_view P view route act' hP hview hs]
  exact hset

/-- **A routed view**: the edits that `route` sends to it act on it, and no other changes it. -/
def Routed (act : σ → ε → σ) (view : σ → τ) (route : ε → Option δ) (act' : τ → δ → τ) : Prop :=
  ∀ s r, view (act s r) = (route r).elim (view s) (act' (view s))

variable {view route act'}

theorem Routed.settles (h : Routed act view route act') {batch : List ε} {s : σ}
    (hset : Settles act' (batch.filterMap route) (view s)) :
    view (batch.foldl act (batch.foldl act s)) = view (batch.foldl act s) :=
  view_settles (fun _ => True) view route act' (fun _ _ _ _ => trivial) (fun s _ r _ => h s r) trivial hset

/-- **What a batch does to a routed view**: what the edits routed to it do. -/
theorem Routed.foldl (h : Routed act view route act') (batch : List ε) (s : σ) :
    view (batch.foldl act s) = (batch.filterMap route).foldl act' (view s) :=
  foldl_view (fun _ => True) view route act' (fun _ _ _ _ => trivial) (fun s _ r _ => h s r) trivial

theorem Routed.of_route {route' : ε → Option δ} (h : Routed act view route act') (hroute : ∀ r, route r = route' r) :
    Routed act view route' act' :=
  fun s r => hroute r ▸ h s r

theorem Routed.of_view {view' : σ → τ} (h : Routed act view route act') (hview : ∀ s, view' s = view s) :
    Routed act view' route act' :=
  (funext hview : view' = view) ▸ h

/-- A view of a view sees what both routes let through. -/
theorem Routed.comp {υ : Type y} {η : Type z} {view' : τ → υ} {route' : δ → Option η} {act'' : υ → η → υ}
    (h : Routed act view route act') (h' : Routed act' view' route' act'') :
    Routed act (fun s => view' (view s)) (fun r => (route r).bind route') act'' := by
  intro s r
  dsimp only
  rw [h s r]
  cases route r with
  | none => rfl
  | some x => exact h' (view s) x

end View

def overwrite {α : Type u} (_ a : α) : α := a

theorem settles_overwrite {α : Type u} (batch : List α) (a : α) : Settles overwrite batch a := by
  unfold Settles
  rcases List.eq_nil_or_concat batch with rfl | ⟨l, c, rfl⟩
  · rfl
  · rw [List.concat_eq_append, List.foldl_append, List.foldl_append]
    rfl

/-- **The last edit of a batch under a key.** -/
def lastWith? {κ : Type w} [BEq κ] {ε : Type v} (key : ε → κ) (k : κ) (batch : List ε) : Option ε :=
  (batch.filter (key · == k)).getLast?

theorem lastWith?_append {κ : Type w} [BEq κ] {ε : Type v} {key : ε → κ} {k : κ} {batch batch' : List ε} :
    lastWith? key k (batch ++ batch') = (lastWith? key k batch').or (lastWith? key k batch) := by
  rw [lastWith?, List.filter_append, List.getLast?_append]
  rfl

/-! ## Members made on their first use -/

section Member

variable {α : Type u} {ε : Type v} (receive : α → ε → α) (fresh : α)

/-- An edit of a member that is made when there is none. -/
def touchMember (a : Option α) (r : ε) : Option α := some (receive (a.getD fresh) r)

theorem foldl_touchMember_some : ∀ (batch : List ε) (a : α),
    batch.foldl (touchMember receive fresh) (some a) = some (batch.foldl receive a)
  | [], _ => rfl
  | r :: batch, a => foldl_touchMember_some batch (receive a r)

theorem settles_touchMember {batch : List ε} {a : Option α} (h : Settles receive batch (a.getD fresh)) :
    Settles (touchMember receive fresh) batch a := by
  unfold Settles at h ⊢
  cases batch with
  | nil => rfl
  | cons r batch =>
    have hfirst : (r :: batch).foldl (touchMember receive fresh) a = some ((r :: batch).foldl receive (a.getD fresh)) :=
      foldl_touchMember_some receive fresh batch (receive (a.getD fresh) r)
    rw [hfirst, foldl_touchMember_some, h]

end Member

section Table

variable {α : Type u} {ε : Type v} (key : ε → Option String) (fresh : String → α) (receive : α → ε → α)

/-- **An edit of the member of a table that it names**, if it names one. -/
def NameMap.touch (m : NameMap α) (r : ε) : NameMap α :=
  match key r with
  | none => m
  | some k => m.update k (fresh k) (receive · r)

theorem NameMap.find?_touch (k : String) : Routed (touch key fresh receive) (find? · k)
    (Option.guard (key · == some k)) (touchMember receive (fresh k)) := by
  intro m r
  unfold touch
  cases hk : key r with
  | none => simp [Option.guard, hk]
  | some n =>
    by_cases hn : n = k
    · subst hn
      simp [Option.guard, hk, find?_update, touchMember]
    · simp [Option.guard, hk, find?_update, hn]

section Lookup

variable {key fresh receive} {m : NameMap α} {r : ε} {k : String}

theorem NameMap.find?_touch_of_eq (hk : key r = some k) :
    (m.touch key fresh receive r).find? k = some (receive ((m.find? k).getD (fresh k)) r) := by
  rw [touch, hk, find?_update, if_pos rfl]

theorem NameMap.find?_touch_of_ne (hk : key r ≠ some k) : (m.touch key fresh receive r).find? k = m.find? k := by
  unfold touch
  cases hn : key r with
  | none => rfl
  | some n =>
    rw [hn, Ne, Option.some.injEq] at hk
    rw [find?_update, if_neg hk]

/-- **A view of one member of a table**: it sees the edits that name the member, as the member takes them. -/
theorem NameMap.routed_touch {τ : Type w} {δ : Type x} {view : α → τ} {route : ε → Option δ} {act' : τ → δ → τ}
    (h : Routed receive view route act') {k : String} {start : τ} (hfresh : view (fresh k) = start) :
    Routed (touch key fresh receive) (fun m => (m.find? k).elim start view)
      (fun r => if key r = some k then route r else none) act' := by
  intro m r
  dsimp only
  by_cases hk : key r = some k
  · rw [find?_touch_of_eq hk, if_pos hk, Option.elim_some, h]
    cases m.find? k with
    | none => rw [Option.getD_none, hfresh, Option.elim_none]
    | some a => rfl
  · rw [find?_touch_of_ne hk, if_neg hk, Option.elim_none]

end Lookup

/-- **A table settles when every member does** under the edits that name it. -/
theorem NameMap.settles_touch {batch : List ε} {m : NameMap α}
    (h : ∀ k, Settles receive (batch.filter (key · == some k)) ((m.find? k).getD (fresh k))) :
    Settles (NameMap.touch key fresh receive) batch m := by
  refine ext_find? fun k => (find?_touch key fresh receive k).settles ?_
  rw [List.filterMap_eq_filter]
  exact settles_touchMember receive (fresh k) (h k)

end Table

/-! ## Lists in the order in which their members were first named -/

def addName (names : List String) (k : String) : List String := if k ∈ names then names else names ++ [k]

theorem mem_addName {names : List String} {k n : String} : n ∈ addName names k ↔ n = k ∨ n ∈ names := by
  unfold addName
  split
  · rename_i hk
    constructor
    · exact .inr
    · rintro (rfl | hn)
      · exact hk
      · exact hn
  · simp [or_comm]

theorem nodup_addName {names : List String} {k : String} (h : names.Nodup) : (addName names k).Nodup := by
  unfold addName
  split
  · exact h
  · rename_i hk
    refine List.nodup_append.2 ⟨h, by simp, fun a ha b hb => ?_⟩
    rintro rfl
    exact hk (by rwa [List.mem_singleton.1 hb] at ha)

theorem foldl_addName_of_subset : ∀ {batch names : List String}, (∀ k ∈ batch, k ∈ names) →
    batch.foldl addName names = names
  | [], _, _ => rfl
  | k :: batch, names, h => by
    have hk : addName names k = names := if_pos (h k List.mem_cons_self)
    rw [List.foldl_cons, hk]
    exact foldl_addName_of_subset fun n hn => h n (List.mem_cons_of_mem _ hn)

theorem mem_foldl_addName : ∀ {batch names : List String} {n : String}, n ∈ batch ∨ n ∈ names →
    n ∈ batch.foldl addName names
  | [], _, _, h => h.resolve_left List.not_mem_nil
  | k :: batch, names, n, h => by
    have hn : n ∈ batch ∨ n ∈ addName names k := by
      rw [mem_addName, ← or_assoc, or_comm (a := n ∈ batch), ← List.mem_cons]
      exact h
    rw [List.foldl_cons]
    exact mem_foldl_addName hn

theorem settles_addName (batch names : List String) : Settles addName batch names :=
  foldl_addName_of_subset fun _ hk => mem_foldl_addName (.inl hk)

section Named

variable {α : Type u} {ε : Type v} (name : α → String) (key : ε → Option String) (fresh : String → α)
  (receive : α → ε → α)

/-- Changes the first member with a name, which is made at the end when there is none. -/
def changeNamed (k : String) (new : α) (change : α → α) : List α → List α
  | [] => [change new]
  | a :: rest => if name a = k then change a :: rest else a :: changeNamed k new change rest

theorem map_changeNamed {k : String} {new : α} {change : α → α} (hnew : name new = k)
    (hchange : ∀ a, name a = k → name (change a) = k) :
    ∀ l : List α, (changeNamed name k new change l).map name = addName (l.map name) k
  | [] => by simp [changeNamed, addName, hchange new hnew]
  | a :: rest => by
    unfold changeNamed
    split
    · rename_i ha
      simp [addName, ha, hchange a ha]
    · rename_i ha
      rw [List.map_cons, map_changeNamed hnew hchange rest]
      unfold addName
      by_cases hk : k ∈ rest.map name
      · simp [hk]
      · simp [hk, Ne.symm ha]

theorem find?_changeNamed {k : String} {new : α} {change : α → α} (hnew : name new = k)
    (hchange : ∀ a, name a = k → name (change a) = k) (n : String) :
    ∀ l : List α, (changeNamed name k new change l).find? (name · == n) =
      if k = n then some (change ((l.find? (name · == k)).getD new)) else l.find? (name · == n)
  | [] => by
    by_cases hn : k = n
    · subst hn
      simp [changeNamed, hchange new hnew]
    · simp [changeNamed, hchange new hnew, hn]
  | a :: rest => by
    unfold changeNamed
    split
    · rename_i ha
      by_cases hn : k = n
      · subst hn
        simp [hchange a ha, ha]
      · simp [hchange a ha, ha, hn]
    · rename_i ha
      have hb : (name a == k) = false := by simpa using ha
      rw [List.find?_cons, find?_changeNamed hnew hchange n rest]
      by_cases hn : k = n
      · subst hn
        simp [hb]
      · simp only [hn, if_false, List.find?_cons]

theorem ext_of_map_eq : ∀ {l k : List α}, (l.map name).Nodup → l.map name = k.map name →
    (∀ n, l.find? (name · == n) = k.find? (name · == n)) → l = k
  | [], [], _, _, _ => rfl
  | [], _ :: _, _, h, _ => by simp at h
  | _ :: _, [], _, h, _ => by simp at h
  | a :: l, b :: k, hnd, hmap, hfind => by
    simp only [List.map_cons, List.nodup_cons, List.cons.injEq] at hnd hmap
    have hab : a = b := by simpa [hmap.1] using hfind (name a)
    subst hab
    refine congrArg (a :: ·) (ext_of_map_eq hnd.2 hmap.2 fun n => ?_)
    by_cases hn : name a = n
    · have habsent : ∀ {m : List α}, name a ∉ m.map name → m.find? (name · == n) = none := fun hm =>
        List.find?_eq_none.2 fun c hc hcn =>
          hm (List.mem_map.2 ⟨c, hc, (beq_iff_eq.1 hcn).trans hn.symm⟩)
      rw [habsent hnd.1, habsent (hmap.2 ▸ hnd.1)]
    · have := hfind n
      simpa [List.find?_cons, hn] using this

theorem find?_of_mem : ∀ {l : List α}, (l.map name).Nodup → ∀ a ∈ l, l.find? (name · == name a) = some a
  | b :: l, hl, a, ha => by
    obtain ⟨hb, hl⟩ := List.nodup_cons.1 hl
    rcases List.mem_cons.1 ha with rfl | ha
    · exact List.find?_cons_of_pos (by simp)
    · have hne : name b ≠ name a := fun h => hb (List.mem_map.2 ⟨a, ha, h.symm⟩)
      rw [List.find?_cons_of_neg (by simpa using hne), find?_of_mem hl a ha]

/-- **An edit of the member of a list that it names**, if it names one. -/
def touchNamed (l : List α) (r : ε) : List α :=
  match key r with
  | none => l
  | some k => changeNamed name k (fresh k) (receive · r) l

variable {name key fresh receive}

theorem map_touchNamed (hfresh : ∀ k, name (fresh k) = k)
    (hreceive : ∀ a r k, key r = some k → name a = k → name (receive a r) = k) :
    Routed (touchNamed name key fresh receive) (List.map name) key addName := by
  intro l r
  unfold touchNamed
  cases hk : key r with
  | none => rfl
  | some k => exact map_changeNamed name (hfresh k) (fun a ha => hreceive a r k hk ha) l

theorem find?_touchNamed (hfresh : ∀ k, name (fresh k) = k)
    (hreceive : ∀ a r k, key r = some k → name a = k → name (receive a r) = k) (n : String) :
    Routed (touchNamed name key fresh receive) (List.find? (name · == n)) (Option.guard (key · == some n))
      (touchMember receive (fresh n)) := by
  intro l r
  unfold touchNamed
  cases hk : key r with
  | none => simp [Option.guard, hk]
  | some k =>
    rw [find?_changeNamed name (hfresh k) (fun a ha => hreceive a r k hk ha) n l]
    by_cases hn : k = n
    · subst hn
      simp [Option.guard, hk, touchMember]
    · simp [Option.guard, hk, hn]

theorem nodup_touchNamed (hfresh : ∀ k, name (fresh k) = k)
    (hreceive : ∀ a r k, key r = some k → name a = k → name (receive a r) = k) {l : List α}
    (hl : (l.map name).Nodup) (r : ε) : ((touchNamed name key fresh receive l r).map name).Nodup := by
  rw [map_touchNamed hfresh hreceive l r]
  cases key r with
  | none => exact hl
  | some k => exact nodup_addName hl

/-- **A list of named members settles when every member does** under the edits that name it. -/
theorem settles_touchNamed (hfresh : ∀ k, name (fresh k) = k)
    (hreceive : ∀ a r k, key r = some k → name a = k → name (receive a r) = k) {batch : List ε} {l : List α}
    (hl : (l.map name).Nodup)
    (h : ∀ k, Settles receive (batch.filter (key · == some k)) ((l.find? (name · == k)).getD (fresh k))) :
    Settles (touchNamed name key fresh receive) batch l := by
  have hnd : ∀ s : List α, (s.map name).Nodup → ∀ r ∈ batch, ((touchNamed name key fresh receive s r).map name).Nodup :=
    fun s hs r _ => nodup_touchNamed hfresh hreceive hs r
  refine ext_of_map_eq name (foldl_keeps _ hnd (foldl_keeps _ hnd hl))
    ((map_touchNamed hfresh hreceive).settles (settles_addName _ _)) fun n => ?_
  refine (find?_touchNamed hfresh hreceive n).settles ?_
  rw [List.filterMap_eq_filter]
  exact settles_touchMember receive (fresh n) (h n)

end Named

end DeployInventory
