import TetherDesk.Host.Encoder.Tiles

namespace TetherDesk.Host

open TetherDesk.Codec TetherDesk.Lib

-- A record sent by a worker: tile, quality, and 1 if it refines.
structure SentTile where
  worker : Nat
  tile : Nat
  q : Nat
  refined : Nat

section Plan

variable (f : Frame) (sh₀ : Bytes) (full : Bool) (quality : Nat) (budget : Int) (tq₀ : List UInt8)

def refinable (k : Nat) : Bool := !tileDirty f sh₀ full k && tq₀.getD k 0 != 0

-- The records sent when the tiles are run in this order, each found as it was at
-- the start; refines is the value of the shared counter.
def plan : Nat → List (Nat × Nat) → List SentTile
  | _, [] => []
  | refines, (wi, k) :: rest =>
      if tileDirty f sh₀ full k then ⟨wi, k, quality, 0⟩ :: plan refines rest
      else if tq₀.getD k 0 = 0 then plan refines rest
      else if (refines : Int) < budget then ⟨wi, k, 0, 1⟩ :: plan (refines + 1) rest
      else plan (refines + 1) rest

-- The tiles still to run are as they were at the start.
structure TilesAhead (items : List (Nat × Nat)) (e : Encoding) : Prop where
  nodup : (items.map Prod.snd).Nodup
  bound : ∀ p ∈ items, p.2 < tileTotal f.width f.height
  length : e.shadow.length = f.width * 4 * f.height
  shadow : ∀ p ∈ items, ∀ X < f.width, ∀ Y < f.height, ∀ b < 4, tileOf f.width X Y = p.2 →
    shadowByte f e.shadow X Y b = shadowByte f sh₀ X Y b
  tileQ : ∃ tq, e.tileQ = some tq ∧ ∀ p ∈ items, tq.getD p.2 0 = tq₀.getD p.2 0

-- tile_q and the workers' buffers after the records of a plan.
def sentQ (tq : Option (List UInt8)) (ps : List SentTile) : Option (List UInt8) :=
  tq.map fun tq => ps.foldl (fun tq p => tq.set p.tile (UInt8.ofNat p.q)) tq

def sentScratch (scratch : List Scratch) (ps : List SentTile) : List Scratch :=
  ps.foldl (fun s p => s.modify p.worker fun s =>
    ⟨s.buf ++ tileRecord f p.tile p.q, s.tiles + 1, s.refined + p.refined⟩) scratch

theorem sentQ_cons (tq : Option (List UInt8)) (p : SentTile) (ps : List SentTile) :
    sentQ tq (p :: ps) = sentQ (tq.map fun tq => tq.set p.tile (UInt8.ofNat p.q)) ps := by
  cases tq <;> rfl

theorem TilesAhead.tail {f sh₀ tq₀} {p : Nat × Nat} {items : List (Nat × Nat)} {e : Encoding}
    (h : TilesAhead f sh₀ tq₀ (p :: items) e) : TilesAhead f sh₀ tq₀ items e := by
  obtain ⟨tq, htq, hsame⟩ := h.tileQ
  exact ⟨(List.nodup_cons.mp h.nodup).2, fun p hp => h.bound p (List.mem_cons_of_mem _ hp), h.length,
    fun p hp => h.shadow p (List.mem_cons_of_mem _ hp),
    tq, htq, fun p hp => hsame p (List.mem_cons_of_mem _ hp)⟩

theorem ne_of_mem_tail {p q : Nat × Nat} {items : List (Nat × Nat)} (h : ((p :: items).map Prod.snd).Nodup)
    (hq : q ∈ items) : q.2 ≠ p.2 := by
  rw [List.map_cons, List.nodup_cons] at h
  intro heq
  exact h.1 (heq ▸ List.mem_map_of_mem hq)

-- Sending a tile leaves the tiles after it as they were.
theorem TilesAhead.sent {f sh₀ tq₀} {p : Nat × Nat} {items : List (Nat × Nat)} {e : Encoding}
    (h : TilesAhead f sh₀ tq₀ items e) (hp : ∀ x ∈ items, x.2 ≠ p.2) (q r : Nat) :
    TilesAhead f sh₀ tq₀ items (e.send f p.1 p.2 q r) := by
  obtain ⟨tq, htq, hsame⟩ := h.tileQ
  refine ⟨h.nodup, h.bound, h.length, h.shadow, tq.set p.2 (UInt8.ofNat q), ?_, ?_⟩
  · simp [Encoding.send, htq]
  · intro x hx
    rw [← hsame x hx, List.getD_eq_getElem?_getD, List.getElem?_set_ne (hp x hx).symm,
      List.getD_eq_getElem?_getD]

theorem TilesAhead.copied {f sh₀ tq₀} {k : Nat} {items : List (Nat × Nat)} {e : Encoding}
    (h : TilesAhead f sh₀ tq₀ items e) (hk : k < tileTotal f.width f.height) (hp : ∀ x ∈ items, x.2 ≠ k) :
    TilesAhead f sh₀ tq₀ items { e with shadow := copyTile f e.shadow k } := by
  refine ⟨h.nodup, h.bound, (copyTile_length f _ _ hk h.length).trans h.length, ?_, h.tileQ⟩
  intro x hx X hX Y hY b hb htile
  rw [shadowByte_copyTile f _ _ hk h.length X Y b hX hY hb, if_neg (htile ▸ hp x hx)]
  exact h.shadow x hx X hX Y hY b hb htile

theorem TilesAhead.refines {f sh₀ tq₀} {items : List (Nat × Nat)} {e : Encoding}
    (h : TilesAhead f sh₀ tq₀ items e) (n : Nat) : TilesAhead f sh₀ tq₀ items { e with refines := n } :=
  ⟨h.nodup, h.bound, h.length, h.shadow, h.tileQ⟩

-- The shadow after running the items: their tiles are those of the frame.
structure ShadowAfter (items : List (Nat × Nat)) (sh sh' : Bytes) : Prop where
  length : sh'.length = f.width * 4 * f.height
  done : ∀ p ∈ items, ∀ X < f.width, ∀ Y < f.height, ∀ b < 4, tileOf f.width X Y = p.2 →
    shadowByte f sh' X Y b = frameByte f X Y b
  others : ∀ X < f.width, ∀ Y < f.height, ∀ b < 4, (∀ p ∈ items, tileOf f.width X Y ≠ p.2) →
    shadowByte f sh' X Y b = shadowByte f sh X Y b

-- One more tile in front, which is that of the frame once it has run.
theorem ShadowAfter.cons {f} {p : Nat × Nat} {items : List (Nat × Nat)} {sh sh₁ sh' : Bytes}
    (h : ShadowAfter f items sh₁ sh') (hp : ∀ x ∈ items, x.2 ≠ p.2)
    (hdone : ∀ X < f.width, ∀ Y < f.height, ∀ b < 4, tileOf f.width X Y = p.2 →
      shadowByte f sh₁ X Y b = frameByte f X Y b)
    (hothers : ∀ X < f.width, ∀ Y < f.height, ∀ b < 4, tileOf f.width X Y ≠ p.2 →
      shadowByte f sh₁ X Y b = shadowByte f sh X Y b) : ShadowAfter f (p :: items) sh sh' := by
  refine ⟨h.length, ?_, ?_⟩
  · intro x hx X hX Y hY b hb htile
    rcases List.mem_cons.mp hx with rfl | hx
    · rw [h.others X hX Y hY b hb fun y hy => htile ▸ (hp y hy).symm]
      exact hdone X hX Y hY b hb htile
    · exact h.done x hx X hX Y hY b hb htile
  · intro X hX Y hY b hb hnot
    rw [h.others X hX Y hY b hb fun y hy => hnot y (List.mem_cons_of_mem _ hy)]
    exact hothers X hX Y hY b hb (hnot p List.mem_cons_self)

theorem refinable_iff {f sh₀ full tq₀} {k : Nat} :
    refinable f sh₀ full tq₀ k = true ↔ tileDirty f sh₀ full k = false ∧ tq₀.getD k 0 ≠ 0 := by
  simp [refinable]

-- What one run of the loop body does to a tile that is as it was at the start.
theorem encodeTile_spec (e : Encoding) (wi k : Nat) (tq : List UInt8) (htq : e.tileQ = some tq)
    (hdirty : tileDirty f e.shadow full k = tileDirty f sh₀ full k) (hq : tq.getD k 0 = tq₀.getD k 0) :
    (tileDirty f sh₀ full k = true ∧ encodeTile f full quality budget e wi k =
      { e with shadow := copyTile f e.shadow k }.send f wi k quality 0) ∨
    (tileDirty f sh₀ full k = false ∧ tq₀.getD k 0 = 0 ∧ encodeTile f full quality budget e wi k = e) ∨
    (refinable f sh₀ full tq₀ k = true ∧ (e.refines : Int) < budget ∧
      encodeTile f full quality budget e wi k = { e with refines := e.refines + 1 }.send f wi k 0 1) ∨
    (refinable f sh₀ full tq₀ k = true ∧ ¬ (e.refines : Int) < budget ∧
      encodeTile f full quality budget e wi k = { e with refines := e.refines + 1 }) := by
  rw [encodeTile, hdirty, htq]
  dsimp only
  rw [hq]
  by_cases hd : tileDirty f sh₀ full k = true
  · exact .inl ⟨hd, if_pos hd⟩
  · rw [if_neg hd]
    have hd : tileDirty f sh₀ full k = false := by simpa using hd
    by_cases hz : tq₀.getD k 0 = 0
    · exact .inr (.inl ⟨hd, hz, if_pos hz⟩)
    · rw [if_neg hz]
      have href : refinable f sh₀ full tq₀ k = true := refinable_iff.mpr ⟨hd, hz⟩
      by_cases hb : (e.refines : Int) < budget
      · exact .inr (.inr (.inl ⟨href, hb, by rw [if_pos hb]⟩))
      · exact .inr (.inr (.inr ⟨href, hb, by rw [if_neg hb]⟩))

theorem runTiles_spec (items : List (Nat × Nat)) (e : Encoding) (h : TilesAhead f sh₀ tq₀ items e) :
    let e' := items.foldl (fun e p => encodeTile f full quality budget e p.1 p.2) e
    let ps := plan f sh₀ full quality budget tq₀ e.refines items
    e'.tileQ = sentQ e.tileQ ps ∧ e'.scratch = sentScratch f e.scratch ps ∧
    ShadowAfter f items e.shadow e'.shadow := by
  induction items generalizing e with
  | nil => exact ⟨by simp [plan, sentQ], rfl, h.length, by simp, fun _ _ _ _ _ _ _ => rfl⟩
  | cons p items ih =>
      obtain ⟨wi, k⟩ := p
      have hk : k < tileTotal f.width f.height := h.bound _ List.mem_cons_self
      have hdirty : tileDirty f e.shadow full k = tileDirty f sh₀ full k :=
        tileDirty_congr f _ _ full k hk (h.shadow (wi, k) List.mem_cons_self)
      have hne : ∀ x ∈ items, x.2 ≠ k := fun x hx => ne_of_mem_tail h.nodup hx
      have hclean := tileDirty_false f e.shadow full k
      obtain ⟨tq, htq, hsame⟩ := h.tileQ
      have hq : tq.getD k 0 = tq₀.getD k 0 := hsame (wi, k) List.mem_cons_self
      dsimp only
      rw [List.foldl_cons, plan]
      obtain ⟨hd, hstep⟩ | ⟨hd, hz, hstep⟩ | ⟨href, hb, hstep⟩ | ⟨href, hb, hstep⟩ :=
        encodeTile_spec f sh₀ full quality budget tq₀ e wi k tq htq hdirty hq
      · obtain ⟨hQ, hS, hA⟩ := ih _ ((h.tail.copied hk hne).sent (p := (wi, k)) hne quality 0)
        rw [hstep, if_pos hd, sentQ_cons]
        refine ⟨hQ, hS, hA.cons hne ?_ ?_⟩
        · intro X hX Y hY b hb htile
          exact (shadowByte_copyTile f _ _ hk h.length X Y b hX hY hb).trans (if_pos htile)
        · intro X hX Y hY b hb htile
          exact (shadowByte_copyTile f _ _ hk h.length X Y b hX hY hb).trans (if_neg htile)
      · obtain ⟨hQ, hS, hA⟩ := ih _ h.tail
        rw [hstep, if_neg (by simp [hd]), if_pos hz]
        exact ⟨hQ, hS, hA.cons hne (fun X hX Y hY b hb => hclean (hdirty.trans hd) X Y b hX hY hb)
          fun _ _ _ _ _ _ _ => rfl⟩
      · have hd := refinable_iff.mp href
        obtain ⟨hQ, hS, hA⟩ := ih _ ((h.tail.refines (e.refines + 1)).sent (p := (wi, k)) hne 0 1)
        rw [hstep, if_neg (by simp [hd.1]), if_neg hd.2, if_pos hb, sentQ_cons]
        exact ⟨hQ, hS, hA.cons hne (fun X hX Y hY b hb => hclean (hdirty.trans hd.1) X Y b hX hY hb)
          fun _ _ _ _ _ _ _ => rfl⟩
      · have hd := refinable_iff.mp href
        obtain ⟨hQ, hS, hA⟩ := ih _ (h.tail.refines (e.refines + 1))
        rw [hstep, if_neg (by simp [hd.1]), if_neg hd.2, if_neg hb]
        exact ⟨hQ, hS, hA.cons hne (fun X hX Y hY b hb => hclean (hdirty.trans hd.1) X Y b hX hY hb)
          fun _ _ _ _ _ _ _ => rfl⟩

-- The branches of the plan for one item.
theorem plan_cons (refines wi k : Nat) (items : List (Nat × Nat)) :
    (tileDirty f sh₀ full k = true ∧ refinable f sh₀ full tq₀ k = false ∧
      plan f sh₀ full quality budget tq₀ refines ((wi, k) :: items) =
        ⟨wi, k, quality, 0⟩ :: plan f sh₀ full quality budget tq₀ refines items) ∨
    (tileDirty f sh₀ full k = false ∧ refinable f sh₀ full tq₀ k = false ∧
      plan f sh₀ full quality budget tq₀ refines ((wi, k) :: items) =
        plan f sh₀ full quality budget tq₀ refines items) ∨
    (tileDirty f sh₀ full k = false ∧ refinable f sh₀ full tq₀ k = true ∧ (refines : Int) < budget ∧
      plan f sh₀ full quality budget tq₀ refines ((wi, k) :: items) =
        ⟨wi, k, 0, 1⟩ :: plan f sh₀ full quality budget tq₀ (refines + 1) items) ∨
    (tileDirty f sh₀ full k = false ∧ refinable f sh₀ full tq₀ k = true ∧ ¬ (refines : Int) < budget ∧
      plan f sh₀ full quality budget tq₀ refines ((wi, k) :: items) =
        plan f sh₀ full quality budget tq₀ (refines + 1) items) := by
  rw [plan]
  by_cases hd : tileDirty f sh₀ full k = true
  · exact .inl ⟨hd, by simp [refinable, hd], if_pos hd⟩
  · rw [if_neg hd]
    rw [Bool.not_eq_true] at hd
    by_cases hz : tq₀.getD k 0 = 0
    · refine .inr (.inl ⟨hd, ?_, if_pos hz⟩)
      rw [← Bool.not_eq_true, refinable_iff]
      exact fun h => h.2 hz
    · rw [if_neg hz]
      have href := refinable_iff.mpr ⟨hd, hz⟩
      by_cases hb : (refines : Int) < budget
      · exact .inr (.inr (.inl ⟨hd, href, hb, if_pos hb⟩))
      · exact .inr (.inr (.inr ⟨hd, href, hb, if_neg hb⟩))

section Facts

variable {f sh₀ full quality budget tq₀}

theorem mem_plan {refines : Nat} {items : List (Nat × Nat)} {p : SentTile}
    (hp : p ∈ plan f sh₀ full quality budget tq₀ refines items) :
    (p.worker, p.tile) ∈ items ∧
    (tileDirty f sh₀ full p.tile = true ∧ p.q = quality ∧ p.refined = 0 ∨
      refinable f sh₀ full tq₀ p.tile = true ∧ p.q = 0 ∧ p.refined = 1) := by
  induction items generalizing refines with
  | nil => simp [plan] at hp
  | cons x items ih =>
      obtain ⟨wi, k⟩ := x
      obtain ⟨hd, -, heq⟩ | ⟨-, -, heq⟩ | ⟨-, href, -, heq⟩ | ⟨-, -, -, heq⟩ :=
        plan_cons f sh₀ full quality budget tq₀ refines wi k items
      · rw [heq] at hp
        rcases List.mem_cons.mp hp with rfl | hp
        · exact ⟨List.mem_cons_self, .inl ⟨hd, rfl, rfl⟩⟩
        · exact ⟨List.mem_cons_of_mem _ (ih hp).1, (ih hp).2⟩
      · rw [heq] at hp
        exact ⟨List.mem_cons_of_mem _ (ih hp).1, (ih hp).2⟩
      · rw [heq] at hp
        rcases List.mem_cons.mp hp with rfl | hp
        · exact ⟨List.mem_cons_self, .inr ⟨href, rfl, rfl⟩⟩
        · exact ⟨List.mem_cons_of_mem _ (ih hp).1, (ih hp).2⟩
      · rw [heq] at hp
        exact ⟨List.mem_cons_of_mem _ (ih hp).1, (ih hp).2⟩

theorem plan_sublist (refines : Nat) (items : List (Nat × Nat)) :
    ((plan f sh₀ full quality budget tq₀ refines items).map (·.tile)).Sublist (items.map Prod.snd) := by
  induction items generalizing refines with
  | nil => simp [plan]
  | cons x items ih =>
      obtain ⟨wi, k⟩ := x
      obtain ⟨-, -, heq⟩ | ⟨-, -, heq⟩ | ⟨-, -, -, heq⟩ | ⟨-, -, -, heq⟩ :=
        plan_cons f sh₀ full quality budget tq₀ refines wi k items
      all_goals rw [heq]
      · exact (ih refines).cons_cons k
      · exact (ih refines).cons k
      · exact (ih (refines + 1)).cons_cons k
      · exact (ih (refines + 1)).cons k

theorem plan_dirty (refines : Nat) (items : List (Nat × Nat)) {x : Nat × Nat} (hx : x ∈ items)
    (hdirty : tileDirty f sh₀ full x.2 = true) :
    x.2 ∈ (plan f sh₀ full quality budget tq₀ refines items).map (·.tile) := by
  induction items generalizing refines with
  | nil => cases hx
  | cons y items ih =>
      obtain ⟨wi, k⟩ := y
      obtain ⟨-, -, heq⟩ | ⟨hd, -, heq⟩ | ⟨hd, -, -, heq⟩ | ⟨hd, -, -, heq⟩ :=
        plan_cons f sh₀ full quality budget tq₀ refines wi k items
      all_goals rw [heq]
      all_goals rcases List.mem_cons.mp hx with rfl | hx
      · exact List.mem_cons_self
      · exact List.mem_cons_of_mem _ (ih refines hx)
      · rw [hd] at hdirty
        cases hdirty
      · exact ih refines hx
      · rw [hd] at hdirty
        cases hdirty
      · exact List.mem_cons_of_mem _ (ih (refines + 1) hx)
      · rw [hd] at hdirty
        cases hdirty
      · exact ih (refines + 1) hx

-- All dirty tiles are sent, and as many of the others as the budget allows.
theorem plan_length (refines : Nat) (items : List (Nat × Nat)) :
    (plan f sh₀ full quality budget tq₀ refines items).length =
      items.countP (fun x => tileDirty f sh₀ full x.2) +
        min (budget - refines).toNat (items.countP fun x => refinable f sh₀ full tq₀ x.2) := by
  induction items generalizing refines with
  | nil => simp [plan]
  | cons x items ih =>
      obtain ⟨wi, k⟩ := x
      rw [List.countP_cons, List.countP_cons]
      obtain ⟨hd, hr, heq⟩ | ⟨hd, hr, heq⟩ | ⟨hd, hr, hb, heq⟩ | ⟨hd, hr, hb, heq⟩ :=
        plan_cons f sh₀ full quality budget tq₀ refines wi k items
      all_goals
        rw [heq]
        simp only [hd, hr, List.length_cons, if_true, Bool.false_eq_true, if_false, ih]
        omega

end Facts

theorem sentScratch_eq (scratch : List Scratch) (ps : List SentTile) :
    sentScratch f scratch ps = scratch.mapIdx fun i s =>
      ⟨s.buf ++ (ps.filter fun p => p.worker = i).flatMap fun p => tileRecord f p.tile p.q,
        s.tiles + (ps.filter fun p => p.worker = i).length,
        s.refined + ((ps.filter fun p => p.worker = i).map (·.refined)).sum⟩ := by
  induction ps generalizing scratch with
  | nil =>
      apply List.ext_getElem <;> simp [sentScratch]
  | cons p ps ih =>
      refine (ih _).trans ?_
      apply List.ext_getElem?
      intro i
      rw [List.getElem?_mapIdx, List.getElem?_mapIdx, List.getElem?_modify]
      cases scratch[i]? with
      | none => rfl
      | some s =>
          by_cases hi : p.worker = i
          · simp [hi, Nat.add_assoc, Nat.add_comm 1]
          · simp [hi]

-- What a finished call leaves behind: the records are those of some list of
-- sent tiles.
structure SentAs (recs : List SentTile) (r : Encoded) : Prop where
  out : r.out = recs.flatMap fun p => tileRecord f p.tile p.q
  tiles : r.tiles = recs.length
  refined : r.refined = (recs.map (·.refined)).sum
  nodup : (recs.map (·.tile)).Nodup
  bound : ∀ p ∈ recs, p.tile < tileTotal f.width f.height
  kinds : ∀ p ∈ recs, tileDirty f sh₀ full p.tile = true ∧ p.q = quality ∧ p.refined = 0 ∨
    refinable f sh₀ full tq₀ p.tile = true ∧ p.q = 0 ∧ p.refined = 1
  dirty : ∀ k < tileTotal f.width f.height, tileDirty f sh₀ full k = true → k ∈ recs.map (·.tile)
  count : recs.length =
    (List.range (tileTotal f.width f.height)).countP (tileDirty f sh₀ full) +
      min budget.toNat ((List.range (tileTotal f.width f.height)).countP (refinable f sh₀ full tq₀))
  shadow_length : r.shadow.length = f.width * 4 * f.height
  shadow : ∀ X < f.width, ∀ Y < f.height, ∀ b < 4, shadowByte f r.shadow X Y b = frameByte f X Y b
  tileQ : ∃ tq, r.tileQ = some tq ∧ tq.length = tileTotal f.width f.height ∧
    (∀ p ∈ recs, tq.getD p.tile 0 = UInt8.ofNat p.q) ∧
    ∀ k, k ∉ recs.map (·.tile) → tq.getD k 0 = tq₀.getD k 0

theorem setAll_length (ps : List SentTile) (tq : List UInt8) :
    (ps.foldl (fun tq p => tq.set p.tile (UInt8.ofNat p.q)) tq).length = tq.length := by
  induction ps generalizing tq with
  | nil => rfl
  | cons p ps ih => exact (ih _).trans (by rw [List.length_set])

theorem setAll_unsent (ps : List SentTile) (tq : List UInt8) (k : Nat) (hk : k ∉ ps.map (·.tile)) :
    (ps.foldl (fun tq p => tq.set p.tile (UInt8.ofNat p.q)) tq).getD k 0 = tq.getD k 0 := by
  induction ps generalizing tq with
  | nil => rfl
  | cons p ps ih =>
      rw [List.map_cons, List.mem_cons, not_or] at hk
      refine (ih _ hk.2).trans ?_
      rw [List.getD_eq_getElem?_getD, List.getElem?_set_ne (Ne.symm hk.1), List.getD_eq_getElem?_getD]

theorem setAll_sent (ps : List SentTile) (tq : List UInt8) (hnodup : (ps.map (·.tile)).Nodup)
    {p : SentTile} (hp : p ∈ ps) (hbound : p.tile < tq.length) :
    (ps.foldl (fun tq p => tq.set p.tile (UInt8.ofNat p.q)) tq).getD p.tile 0 = UInt8.ofNat p.q := by
  induction ps generalizing tq with
  | nil => cases hp
  | cons x ps ih =>
      rw [List.map_cons, List.nodup_cons] at hnodup
      rcases List.mem_cons.mp hp with rfl | hp
      · refine (setAll_unsent ps _ _ hnodup.1).trans ?_
        rw [List.getD_eq_getElem?_getD, List.getElem?_set_self hbound]
        rfl
      · exact ih _ hnodup.2 hp (by rwa [List.length_set])

end Plan

theorem sizedTileQ_length (total : Nat) (tq : List UInt8) : (sizedTileQ total tq).length = total := by
  unfold sizedTileQ
  split_ifs with h
  · rw [List.length_replicate]
  · simpa using h

-- A frame without pixels leaves nothing to encode.
theorem encode_empty (f : Frame) (shadow : Bytes) (full : Bool) (quality : Nat) (tileQ : List UInt8) (budget : Int)
    (workers : Nat) (schedule : List Nat) (r : Encoded) (hworkers : 0 < workers)
    (hnone : tileTotal f.width f.height = 0)
    (h : encode f shadow full quality (some tileQ) budget workers schedule = some r) :
    r.tileQ = some [] ∧ r.shadow = shadow ∧ r.tiles = 0 := by
  unfold encode at h
  dsimp only [Option.map_some] at h
  rw [WorkQueue.runWith_eq] at h
  dsimp only at h
  split_ifs at h with hdone
  have hperm := WorkQueue.order_perm 4 _ workers hworkers schedule hdone
  have hitems : (WorkQueue.order 4 (tileTotal f.width f.height) schedule (WorkQueue.start workers)).1 = [] := by
    rw [hnone, List.range_zero] at hperm
    rw [hnone]
    exact List.map_eq_nil_iff.mp hperm.eq_nil
  rw [← Option.some.inj h, hitems]
  refine ⟨congrArg some (List.length_eq_zero_iff.mp ((sizedTileQ_length _ tileQ).trans hnone)), rfl, ?_⟩
  simp

theorem encode_exists (f : Frame) (shadow : Bytes) (full : Bool) (quality : Nat) (tileQ : Option (List UInt8))
    (budget : Int) (workers : Nat) :
    ∃ schedule r, encode f shadow full quality tileQ budget workers schedule = some r := by
  obtain ⟨schedule, hdone⟩ :=
    WorkQueue.exists_finish 4 (tileTotal f.width f.height) (by omega) (WorkQueue.start workers)
  refine ⟨schedule, ?_⟩
  unfold encode
  dsimp only
  rw [WorkQueue.runWith_eq]
  dsimp only
  rw [if_pos hdone]
  exact ⟨_, rfl⟩

theorem encode_spec (f : Frame) (shadow : Bytes) (full : Bool) (quality : Nat) (tileQ : List UInt8)
    (budget : Int) (workers : Nat) (schedule : List Nat) (r : Encoded) (hworkers : 0 < workers)
    (hsh : shadow.length = f.width * 4 * f.height)
    (h : encode f shadow full quality (some tileQ) budget workers schedule = some r) :
    ∃ recs, SentAs f shadow full quality budget (sizedTileQ (tileTotal f.width f.height) tileQ) recs r := by
  unfold encode at h
  dsimp only [Option.map_some] at h
  rw [WorkQueue.runWith_eq] at h
  set total := tileTotal f.width f.height with htotal
  set tq₀ := sizedTileQ total tileQ with htq₀
  set items := (WorkQueue.order 4 total schedule (WorkQueue.start workers)).1 with hitems
  have hlt : ∀ p ∈ items, p.1 < workers := by
    intro p hp
    have := WorkQueue.order_worker_lt 4 total schedule (WorkQueue.start workers) p hp
    rwa [WorkQueue.start, List.length_replicate] at this
  dsimp only at h
  split_ifs at h with hdone
  have hperm : (items.map Prod.snd).Perm (List.range total) :=
    WorkQueue.order_perm 4 total workers hworkers schedule hdone
  have hmem : ∀ k < total, ∃ p ∈ items, p.2 = k := by
    intro k hk
    have : k ∈ items.map Prod.snd := hperm.mem_iff.mpr (List.mem_range.mpr hk)
    simpa using this
  set start : Encoding := ⟨0, shadow, some tq₀, List.replicate workers ⟨[], 0, 0⟩⟩ with hstart
  have hun : TilesAhead f shadow tq₀ items start := by
    refine ⟨hperm.nodup_iff.mpr List.nodup_range, ?_, hsh, fun _ _ _ _ _ _ _ _ _ => rfl, tq₀, rfl,
      fun _ _ => rfl⟩
    intro p hp
    exact List.mem_range.mp (hperm.mem_iff.mp (List.mem_map_of_mem hp))
  obtain ⟨hQ, hS, hA⟩ := runTiles_spec f shadow full quality budget tq₀ items start hun
  set e' := items.foldl (fun e p => encodeTile f full quality budget e p.1 p.2) start
  set ps := plan f shadow full quality budget tq₀ start.refines items with hps
  have hworker : ∀ p ∈ ps, p.worker < workers := fun p hp => hlt _ (mem_plan hp).1
  have hcollect := WorkQueue.collect_perm SentTile.worker workers ps hworker
  set recs := (List.range workers).flatMap fun i => ps.filter fun p => p.worker = i with hrecs
  have hscratch : e'.scratch = (List.range workers).map fun i =>
      ⟨(ps.filter fun p => p.worker = i).flatMap fun p => tileRecord f p.tile p.q,
        (ps.filter fun p => p.worker = i).length,
        ((ps.filter fun p => p.worker = i).map (·.refined)).sum⟩ := by
    rw [hS, sentScratch_eq]
    apply List.ext_getElem <;> simp [hstart]
  have hnodup : (recs.map (·.tile)).Nodup :=
    (hcollect.map _).nodup_iff.mpr ((plan_sublist 0 items).nodup hun.nodup)
  have hmemrecs : ∀ k, k ∈ recs.map (·.tile) ↔ k ∈ ps.map (·.tile) := fun k => (hcollect.map _).mem_iff
  refine ⟨recs, ?_⟩
  rw [← Option.some.inj h]
  constructor
  · dsimp only
    rw [hscratch, List.flatMap_map, hrecs, List.flatMap_assoc]
  · dsimp only
    rw [hscratch, List.map_map, hrecs, List.length_flatMap]
    rfl
  · dsimp only
    rw [hscratch, List.map_map, hrecs, List.map_flatMap, List.flatMap_def, List.sum_flatten, List.map_map]
    rfl
  · exact hnodup
  · intro p hp
    exact hun.bound _ (mem_plan (hcollect.mem_iff.mp hp)).1
  · intro p hp
    exact (mem_plan (hcollect.mem_iff.mp hp)).2
  · intro k hk hdirty
    obtain ⟨p, hp, rfl⟩ := hmem k hk
    exact (hmemrecs _).mpr (plan_dirty 0 items hp hdirty)
  · rw [hcollect.length_eq, hps, plan_length, ← htotal, ← hperm.countP_eq, ← hperm.countP_eq, List.countP_map,
      List.countP_map]
    simp only [hstart, Nat.cast_zero, Int.sub_zero]
    rfl
  · exact hA.length
  · intro X hX Y hY b hb
    obtain ⟨p, hp, hpk⟩ := hmem _ (tileOf_lt hX hY)
    exact hA.done p hp X hX Y hY b hb hpk.symm
  · refine ⟨_, hQ, (setAll_length ps tq₀).trans (sizedTileQ_length total tileQ), ?_, ?_⟩
    · intro p hp
      have hp := hcollect.mem_iff.mp hp
      refine setAll_sent ps tq₀ ((plan_sublist 0 items).nodup hun.nodup) hp ?_
      rw [htq₀, sizedTileQ_length]
      exact hun.bound _ (mem_plan hp).1
    · intro k hk
      exact setAll_unsent ps tq₀ k (mt (hmemrecs k).mpr hk)

end TetherDesk.Host
