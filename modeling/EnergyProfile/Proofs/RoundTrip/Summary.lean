import EnergyProfile.Proofs.Exact
import EnergyProfile.Proofs.RoundTrip.Keeping

/-!
# The summary agrees with the counts

A summary lists the quantities that some round trip has, and says of how many round trips each was
taken. All round trips of a log have the same crypto pairs, so a quantity is taken of all that were
kept or of none, apart from the shares: over exact arithmetic these are taken of the round trips that
take time. In doubles a time may overflow, so nothing is said there of the shares.
-/

namespace EnergyProfile

set_option autoImplicit false

variable {α : Type} [Scalar α]

/-- The number of round trips that have a quantity. -/
def TimingMetric.definedIn (trips : List (RoundTrip α)) (metric : TimingMetric) : Nat :=
  trips.countP fun r => (metric.of? r).isSome

theorem length_values_eq_definedIn (trips : List (RoundTrip α)) (metric : TimingMetric) :
    (trips.filterMap (metric.of? ·)).length = metric.definedIn trips :=
  List.length_filterMap_eq_countP ..

theorem mem_all (metric : TimingMetric) : metric ∈ TimingMetric.all := by
  cases metric <;> decide

theorem mem_summarizeTiming_iff {trips : List (RoundTrip α)} {metric : TimingMetric}
    {stat : Stat α} : (metric, stat) ∈ summarizeTiming trips ↔
      stat = Stat.of (trips.filterMap (metric.of? ·)) ∧ 0 < metric.definedIn trips := by
  rw [← length_values_eq_definedIn, summarizeTiming, List.mem_filter, List.mem_map]
  constructor
  · rintro ⟨⟨_, _, h⟩, hcount⟩
    obtain ⟨rfl, rfl⟩ := Prod.mk.inj h
    refine ⟨rfl, Nat.pos_of_ne_zero fun hzero => ?_⟩
    simp [Stat.isEmpty, hzero] at hcount
  · rintro ⟨rfl, hpos⟩
    refine ⟨⟨metric, mem_all metric, rfl⟩, ?_⟩
    simp [Stat.isEmpty, hpos.ne']

theorem metrics_summarizeTiming (trips : List (RoundTrip α)) :
    ((summarizeTiming trips).map Prod.fst).Sublist TimingMetric.all := by
  have hall : (TimingMetric.all.map fun metric =>
      (metric, Stat.of (trips.filterMap (metric.of? ·)))).map Prod.fst = TimingMetric.all := by
    rw [List.map_map]
    exact List.map_id _
  rw [← hall]
  exact List.filter_sublist.map Prod.fst

/-- A summary has nothing to say exactly if there are no round trips: each has a time. -/
theorem summarizeTiming_eq_nil_iff (trips : List (RoundTrip α)) :
    summarizeTiming trips = [] ↔ trips.length = 0 := by
  have hwhole : TimingMetric.whole.definedIn trips = trips.length :=
    List.countP_eq_length.mpr fun _ _ => rfl
  constructor
  · intro h
    by_contra hne
    have hmem := mem_summarizeTiming_iff.mpr
      ⟨rfl, (Nat.pos_of_ne_zero hne).trans_le hwhole.ge⟩
    rw [h] at hmem
    cases hmem
  · intro h
    rw [List.length_eq_zero_iff.mp h]
    rfl

/-- Of how many round trips a quantity is taken, by whether the sensor and the storage log their
crypto stages, the number of round trips and the number of those that take time. -/
def expectedCount (sensor storage : Bool) (kept timed : Nat) : TimingMetric → Nat
  | .whole | .sensorSend | .sensorReceive | .storage | .gatewayOutbound | .gatewayInbound
  | .network | .storageNetwork | .link => kept
  | .sensorCrypto => if sensor then kept else 0
  | .storageCrypto => if storage then kept else 0
  | .networkShare => timed
  | .sensorCryptoShare => if sensor then timed else 0
  | .storageCryptoShare => if storage then timed else 0

/-- A quantity that is a part of the whole time. -/
def TimingMetric.isShare : TimingMetric → Bool
  | .networkShare | .sensorCryptoShare | .storageCryptoShare => true
  | _ => false

/-- A summary lists quantities of the round trips that were kept, each once and in the order of all,
and says the expected number of those among them that are looked at. -/
structure Consistent {α : Type} (sensor storage : Bool) (kept timed : Nat)
    (looked : TimingMetric → Prop) (summary : List (TimingMetric × Stat α)) : Prop where
  empty_iff : summary = [] ↔ kept = 0
  order : (summary.map Prod.fst).Sublist TimingMetric.all
  nodup : (summary.map Prod.fst).Nodup
  count_iff : ∀ metric, looked metric → ∀ n,
    (∃ stat, (metric, stat) ∈ summary ∧ stat.count = n) ↔
      expectedCount sensor storage kept timed metric = n ∧ 0 < n

theorem consistent_summarizeTiming {sensor storage : Bool} {kept timed : Nat}
    {looked : TimingMetric → Prop} {trips : List (RoundTrip α)} (hkept : trips.length = kept)
    (h : ∀ metric, looked metric →
      metric.definedIn trips = expectedCount sensor storage kept timed metric) :
    Consistent sensor storage kept timed looked (summarizeTiming trips) := by
  have horder := metrics_summarizeTiming trips
  refine ⟨?_, horder, horder.nodup (by decide), ?_⟩
  · rw [← hkept]
    exact summarizeTiming_eq_nil_iff trips
  intro metric hlooked n
  rw [← h metric hlooked]
  constructor
  · rintro ⟨stat, hmem, rfl⟩
    obtain ⟨rfl, hpos⟩ := mem_summarizeTiming_iff.mp hmem
    rw [Stat.count_of, length_values_eq_definedIn]
    exact ⟨rfl, hpos⟩
  · rintro ⟨rfl, hpos⟩
    exact ⟨_, mem_summarizeTiming_iff.mpr ⟨rfl, hpos⟩, length_values_eq_definedIn _ _⟩

/-- All round trips have the same crypto spans. -/
structure Uniform (sensor storage : Bool) (trips : List (RoundTrip α)) : Prop where
  sensor : ∀ r ∈ trips, r.sensorCrypto.isSome = sensor
  storage : ∀ r ∈ trips, r.storageCrypto.isSome = storage

theorem countP_and {β : Type} {p q : β → Bool} {xs : List β} {b : Bool}
    (h : ∀ x ∈ xs, p x = b) : (xs.countP fun x => p x && q x) = if b then xs.countP q else 0 := by
  cases b with
  | true =>
    refine List.countP_congr fun x hx => ?_
    rw [h x hx, Bool.true_and]
  | false =>
    refine List.countP_eq_zero.mpr fun x hx => ?_
    rw [h x hx, Bool.false_and]
    exact Bool.false_ne_true

theorem countP_const {β : Type} {p : β → Bool} {xs : List β} {b : Bool} (h : ∀ x ∈ xs, p x = b) :
    xs.countP p = if b then xs.length else 0 := by
  cases b with
  | true => exact List.countP_eq_length.mpr h
  | false => exact List.countP_eq_zero.mpr fun x hx => Bool.eq_false_iff.mp (h x hx)

theorem definedIn_of_uniform {sensor storage : Bool} {trips : List (RoundTrip α)}
    (h : Uniform sensor storage trips) {metric : TimingMetric} (hshare : metric.isShare = false)
    (timed : Nat) :
    metric.definedIn trips = expectedCount sensor storage trips.length timed metric := by
  have hall (hof : ∀ r ∈ trips, (metric.of? r).isSome = true) :
      metric.definedIn trips = trips.length := List.countP_eq_length.mpr hof
  cases metric with
  | sensorCrypto =>
    refine countP_const fun r hr => ?_
    rw [TimingMetric.of?, RoundTrip.sensorCryptoTime?, Option.isSome_map, h.sensor r hr]
  | storageCrypto =>
    refine countP_const fun r hr => ?_
    rw [TimingMetric.of?, RoundTrip.storageCryptoTime?, Option.isSome_map, h.storage r hr]
  | networkShare => cases hshare
  | sensorCryptoShare => cases hshare
  | storageCryptoShare => cases hshare
  | _ => exact hall fun _ _ => rfl

def ClockSpan.map {β : Type} (f : α → β) (s : ClockSpan α) : ClockSpan β := ⟨f s.start, f s.stop⟩

def CryptoSpans.map {β : Type} (f : α → β) (c : CryptoSpans α) : CryptoSpans β :=
  ⟨c.encrypt.map f, c.decrypt.map f⟩

def RoundTrip.map {β : Type} (f : α → β) (r : RoundTrip α) : RoundTrip β where
  whole := r.whole.map f
  sensorSend := r.sensorSend.map f
  sensorReceive := r.sensorReceive.map f
  gatewayOutbound := r.gatewayOutbound.map f
  gatewayInbound := r.gatewayInbound.map f
  storage := r.storage.map f
  sensorCrypto := r.sensorCrypto.map (CryptoSpans.map f)
  storageCrypto := r.storageCrypto.map (CryptoSpans.map f)

/-- The real numbers that the readings stand for. -/
noncomputable def RoundTrip.exact (r : RoundTrip Float) : RoundTrip ℝ :=
  r.map fun x => (Double.ofFloat x).toReal

theorem RoundTrip.spans_map {α β : Type} (f : α → β) (r : RoundTrip α) :
    (r.map f).spans = r.spans.map (ClockSpan.map f) := by
  obtain ⟨_, _, _, _, _, _, _ | _, _ | _⟩ := r <;> rfl

theorem RoundTrip.isClean_real_iff (r : RoundTrip ℝ) : r.defects.isClean = true ↔
    ∀ s ∈ r.spans, s.start ≠ 0 ∧ s.stop ≠ 0 ∧ s.start ≤ s.stop := by
  simp only [isClean_iff_forall_mem, Scalar.isFinite_real, Scalar.equal_real, Scalar.less_real,
    Scalar.ofNat_real, Nat.cast_zero, decide_eq_false_iff_not, not_lt, true_and, and_assoc, ne_eq]

/-- What is not finite stands for zero, so it is not sound over exact arithmetic either. -/
theorem ClockSpan.sound_iff_toReal (s : ClockSpan Float) : s.Sound ↔
    (Double.ofFloat s.start).toReal ≠ 0 ∧ (Double.ofFloat s.stop).toReal ≠ 0 ∧
      (Double.ofFloat s.start).toReal ≤ (Double.ofFloat s.stop).toReal := by
  constructor
  · intro h
    have hstart := Double.equal_zero_iff h.start_finite
    have hstop := Double.equal_zero_iff h.stop_finite
    exact ⟨mt hstart.mpr (ne_true_of_eq_false h.start_ne_zero),
      mt hstop.mpr (ne_true_of_eq_false h.stop_ne_zero),
      Double.toReal_le_of_le h.start_finite h.stop_finite h.ordered⟩
  · rintro ⟨hstart0, hstop0, hle⟩
    have hstart := Double.isFinite_of_toReal_ne_zero hstart0
    have hstop := Double.isFinite_of_toReal_ne_zero hstop0
    refine ⟨hstart, hstop, eq_false_of_ne_true (mt (Double.equal_zero_iff hstart).mp hstart0),
      eq_false_of_ne_true (mt (Double.equal_zero_iff hstop).mp hstop0), ?_⟩
    exact Double.le_of_not_lt hstart hstop fun hlt =>
      hle.not_gt ((Double.lt_iff_toReal hstop hstart).mp hlt)

theorem RoundTrip.isClean_exact (r : RoundTrip Float) :
    r.exact.defects.isClean = r.defects.isClean := by
  rw [Bool.eq_iff_iff, isClean_real_iff, isClean_iff, exact, spans_map, List.forall_mem_map]
  simp only [ClockSpan.sound_iff_toReal]
  rfl

/-- Over exact arithmetic the same round trips are kept. -/
theorem filterValid_exact (trips : List (RoundTrip Float)) :
    (filterValid (trips.map RoundTrip.exact)).1 = (filterValid trips).1.map RoundTrip.exact := by
  change (trips.map RoundTrip.exact).filter (fun r => r.defects.isClean) = _
  simp only [List.filter_map, Function.comp_def, RoundTrip.isClean_exact]
  rfl

theorem Uniform.map {α β : Type} {sensor storage : Bool} {trips : List (RoundTrip α)}
    (h : Uniform sensor storage trips) (f : α → β) :
    Uniform sensor storage (trips.map (RoundTrip.map f)) := by
  constructor
  · intro _ hmem
    obtain ⟨r, hr, rfl⟩ := List.mem_map.mp hmem
    rw [← h.sensor r hr]
    exact Option.isSome_map
  · intro _ hmem
    obtain ⟨r, hr, rfl⟩ := List.mem_map.mp hmem
    rw [← h.storage r hr]
    exact Option.isSome_map

/-- Whether the whole time of a round trip is other than zero. -/
def RoundTrip.takesTime (r : RoundTrip α) : Bool :=
  !Scalar.equal r.wholeTime (Scalar.ofNat 0)

theorem isSome_share? (r : RoundTrip ℝ) (time : ℝ) : (r.share? time).isSome = r.takesTime := by
  simp only [RoundTrip.share?, percentOf, RoundTrip.takesTime, Scalar.isFinite_real, Bool.not_true,
    Bool.false_or]
  cases Scalar.equal r.wholeTime (Scalar.ofNat 0) <;> rfl

theorem isSome_bind_share? (r : RoundTrip ℝ) (time : Option ℝ) :
    (time.bind r.share?).isSome = (time.isSome && r.takesTime) := by
  cases time with
  | none => rfl
  | some t => rw [Option.bind_some, isSome_share?, Option.isSome_some, Bool.true_and]

/-- Over exact arithmetic a share is taken of each round trip that takes time. -/
theorem definedIn_exact {sensor storage : Bool} {trips : List (RoundTrip ℝ)}
    (h : Uniform sensor storage trips) (metric : TimingMetric) : metric.definedIn trips =
      expectedCount sensor storage trips.length (trips.countP RoundTrip.takesTime) metric := by
  cases hshare : metric.isShare with
  | false => exact definedIn_of_uniform h hshare _
  | true =>
    unfold TimingMetric.definedIn
    cases metric with
    | networkShare =>
      simp only [TimingMetric.of?, isSome_share?]
      rfl
    | sensorCryptoShare =>
      simp only [TimingMetric.of?, isSome_bind_share?]
      refine countP_and fun r hr => ?_
      rw [RoundTrip.sensorCryptoTime?, Option.isSome_map, h.sensor r hr]
    | storageCryptoShare =>
      simp only [TimingMetric.of?, isSome_bind_share?]
      refine countP_and fun r hr => ?_
      rw [RoundTrip.storageCryptoTime?, Option.isSome_map, h.storage r hr]
    | _ => cases hshare

namespace RoundTripLog

variable {tree : FileTree} {directory : Path} {withCrypto : Bool}

/-- All round trips of a log have the crypto spans whose tables take part in it. -/
theorem uniform_of_loaded {trips : List (RoundTrip Float)}
    (h : loaded tree directory withCrypto = .ok trips) :
    Uniform (attaches tree directory withCrypto .encrypt)
      (attaches tree directory withCrypto .storageEncrypt) trips := by
  rw [loaded_eq] at h
  obtain ⟨log, hlog, rfl⟩ := map_eq_ok_iff.mp h
  constructor
  · intro r hr
    obtain ⟨i, -, rfl⟩ := List.mem_map.mp hr
    rw [← isSome_table? hlog, table?, Option.isSome_map]
    exact Option.isSome_map
  · intro r hr
    obtain ⟨i, -, rfl⟩ := List.mem_map.mp hr
    rw [← isSome_table? hlog, table?, Option.isSome_map]
    exact Option.isSome_map

theorem uniform_filterValid {sensor storage : Bool} {trips : List (RoundTrip Float)}
    (h : Uniform sensor storage trips) : Uniform sensor storage (filterValid trips).1 := by
  constructor
  · intro r hr
    exact h.sensor r (List.mem_of_mem_filter hr)
  · intro r hr
    exact h.storage r (List.mem_of_mem_filter hr)

/-- What the analysis of a log comes to. -/
def analyzed (tree : FileTree) (directory : Path) (withCrypto : Bool) :
    Except Error (List (TimingMetric × Stat Float) × Rejections) :=
  ((analyze directory withCrypto : StateM FileTree _) tree).1

theorem analyzed_eq_ok_iff {summary : List (TimingMetric × Stat Float)} {counts : Rejections} :
    analyzed tree directory withCrypto = .ok (summary, counts) ↔
      ∃ trips, loaded tree directory withCrypto = .ok trips ∧
        summary = summarizeTiming (filterValid trips).1 ∧ counts = (filterValid trips).2 := by
  have hmap : analyzed tree directory withCrypto = (loaded tree directory withCrypto).map
      fun trips => (summarizeTiming (filterValid trips).1, (filterValid trips).2) := rfl
  rw [hmap, map_eq_ok_iff]
  simp only [Prod.mk.injEq, eq_comm]

/-- A summary and the counts that come with it tell of the same round trips. Over exact arithmetic
every quantity is taken of as many as expected. In doubles the shares are left out. -/
structure Agrees (tree : FileTree) (directory : Path) (withCrypto : Bool)
    (trips kept : List (RoundTrip Float)) (summary : List (TimingMetric × Stat Float))
    (counts : Rejections) : Prop where
  loaded : loaded tree directory withCrypto = .ok trips
  filtered : filterValid trips = (kept, counts)
  summarized : summarizeTiming kept = summary
  exactly : (filterValid (trips.map RoundTrip.exact)).1 = kept.map RoundTrip.exact
  exact : Consistent (attaches tree directory withCrypto .encrypt)
    (attaches tree directory withCrypto .storageEncrypt) counts.kept
    ((kept.map RoundTrip.exact).countP RoundTrip.takesTime) (fun _ => True)
    (summarizeTiming (kept.map RoundTrip.exact))
  rounded : Consistent (attaches tree directory withCrypto .encrypt)
    (attaches tree directory withCrypto .storageEncrypt) counts.kept
    (kept.countP RoundTrip.takesTime) (fun metric => metric.isShare = false) summary

theorem analyzed_agrees {summary : List (TimingMetric × Stat Float)} {counts : Rejections}
    (h : analyzed tree directory withCrypto = .ok (summary, counts)) :
    ∃ trips kept, Agrees tree directory withCrypto trips kept summary counts := by
  obtain ⟨trips, htrips, rfl, rfl⟩ := analyzed_eq_ok_iff.mp h
  have huniform := uniform_filterValid (uniform_of_loaded htrips)
  refine ⟨trips, (filterValid trips).1, htrips, rfl, rfl, filterValid_exact trips, ?_, ?_⟩
  · have hexact := huniform.map fun x => (Double.ofFloat x).toReal
    have hcount (metric : TimingMetric) := definedIn_exact hexact metric
    rw [List.length_map] at hcount
    exact consistent_summarizeTiming (List.length_map _) fun metric _ => hcount metric
  · exact consistent_summarizeTiming rfl fun metric hshare => definedIn_of_uniform huniform hshare _

/-- Of the two round trips that are kept one takes no time, so the shares are taken of the other. -/
theorem analyzed_agrees_of_unevenLog : ∃ summary,
    analyzed unevenLog ⟨"log"⟩ true = .ok (summary, ⟨2, 3, 2, 0, 1⟩) ∧
      summary.map (fun entry => (entry.1, entry.2.count)) =
        [(.whole, 2), (.sensorSend, 2), (.sensorReceive, 2), (.storage, 2), (.gatewayOutbound, 2),
          (.gatewayInbound, 2), (.network, 2), (.networkShare, 1), (.storageNetwork, 2), (.link, 2),
          (.sensorCrypto, 2), (.sensorCryptoShare, 1)] ∧
      ∃ trips kept, Agrees unevenLog ⟨"log"⟩ true trips kept summary ⟨2, 3, 2, 0, 1⟩ := by
  obtain ⟨⟨summary, counts⟩, h, hcounts⟩ : ∃ result : List (TimingMetric × Stat Float) × Rejections,
      analyzed unevenLog ⟨"log"⟩ true = .ok result ∧
        (result.2, result.1.map fun entry => (entry.1, entry.2.count)) = (⟨2, 3, 2, 0, 1⟩,
          [(.whole, 2), (.sensorSend, 2), (.sensorReceive, 2), (.storage, 2), (.gatewayOutbound, 2),
            (.gatewayInbound, 2), (.network, 2), (.networkShare, 1), (.storageNetwork, 2),
            (.link, 2), (.sensorCrypto, 2), (.sensorCryptoShare, 1)]) :=
    exists_ok_of_toOption (by decide +kernel)
  obtain ⟨rfl, hsummary⟩ := Prod.mk.inj hcounts
  exact ⟨summary, h, hsummary, analyzed_agrees h⟩

end RoundTripLog

end EnergyProfile
