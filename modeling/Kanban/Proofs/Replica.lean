import Kanban.Hub
import Kanban.Proofs.Projection.Awaited
import Kanban.Proofs.Server.Sending
import Kanban.Proofs.Server.Serving

/-!
# Kanban.Proofs.Replica — a client that drives a board

A client reads a board from a server and then moves cards, one move after the other, each sent to the
server and awaited. Some moves are carried out and some are refused; nobody else writes. The client
places a card by its own reckoning first, in a column that it may have to open, and then learns what
the server has made of it.

After each move the client shows the board of the server: every card in an open stage, where the server
has it, under the keys of the open stages, in order. Cards at equal positions have no order of their
own; where there are none, the client shows what any other client would read.

* `Shows` — a client shows what the records have.
* `Drives`, `drives_move` — the client that drives the board, kept by every move.
* `replica` — a client that has driven a board shows what a new one reads.
-/

namespace Kanban

open Projection (Definable relocate)

/-! ## What a client learns of its move -/

namespace Projection

open Operation

variable {p q : Projection}

/-- What a refusal is to a client. -/
def rejection (e : Refusal) : Reason where
  failure := .rejected e.error e.code.name ((e.detailsValue.given?).getD (.object []))
  spoken := rfl

/-- A refusal in words makes a move fail. -/
theorem settle_refusal {e : Refusal} (he : e.error ≠ "") (n : Nat) (p : Projection) :
    (settle n (.ok e.toValue) p).2 = (p.rollback n (some (rejection e))).calmed := by
  have hrecord : e.toValue.record = .ok [("error", e.error), ("error_code", e.code.name),
    ("details", e.detailsValue), ("api_version", apiVersion)] := rfl
  have hgiven : (Value.text e.error).given? = some (.text e.error) := by
    simp [Value.given?, Value.given, he]
  have herror : Entries.getD "error" [("error", (e.error : Value)), ("error_code", e.code.name),
    ("details", e.detailsValue), ("api_version", apiVersion)] .null = .text e.error := rfl
  unfold settle
  simp only [hrecord, Failure.ofReading, bind_apply, lift_apply, herror, hgiven]
  exact (congrArg Prod.snd (bind_apply _ _ p).symm).trans
    ((state_bind_throw (settleFailed n (some (rejection e).failure)) (rejection e).failure p).trans
      (act_rollback_reason n (some (rejection e)) p))

/-- A card that was stored in a stage with a name makes a move succeed. -/
theorem settle_moved {c : Card} {k : String} (hs : c.stage = .text k) (hk : k ≠ "") (n : Nat)
    (p : Projection) :
    (settle n (.ok (Moved.toPayload c)) p).2 =
      (p.confirm n (some (.text k)) (some (.real c.position))).calmed := by
  have hnamed : namedStage (some k) = some (.text k) := by simp [namedStage, Option.filter, hk]
  have hread : settle n (.ok (Moved.toPayload c)) p =
      settleConfirmed n c.stage (.real c.position) p := rfl
  have hact := act_confirm n (some k) (some c.position) p
  rw [hnamed] at hact
  rw [hread, hs]
  exact hact

end Projection

/-! ## A client that shows what the records have -/

namespace Records

variable {r : Records} {board : Key}

/-- The cards of a board are at finite positions. -/
def Placed (board : Key) (r : Records) : Prop :=
  ∀ c ∈ Entries.values r.cards, c.board = board → Decimal.isFinite c.position = true

/-- No two cards of a stage of the board are at equal positions. -/
def Spread (board : Key) (r : Records) : Prop :=
  ∀ k, ∀ c ∈ r.cardsIn board k, ∀ d ∈ r.cardsIn board k, c.id ≠ d.id →
    (c.position == d.position) = false

end Records

/-- A client between moves shows the cards in the open stages of a board as the records have them. -/
structure Shows (board : Key) (r : Records) (p : Projection) : Prop where
  ready : p.Ready
  home : p.board = board
  active : ∀ k, p.isActive k = r.isOpen board k
  keys : p.keys = r.openKeys board
  tiles : p.tiles.Perm ((r.openCards board).map Tile.ofCard)

namespace Shows

open Projection

variable {board : Key} {r : Records} {p q : Projection}

theorem mem (h : Shows board r p) {t : Tile} (ht : t ∈ p.tiles) :
    ∃ c ∈ r.openCards board, Tile.ofCard c = t := List.mem_map.1 (h.tiles.mem_iff.1 ht)

theorem finite (h : Shows board r p) (hp : r.Placed board) : p.Finite :=
  each_iff.2 fun t ht => by
    obtain ⟨c, hc, rfl⟩ := h.mem ht
    obtain ⟨hm, hb, -⟩ := Records.mem_openCards.1 hc
    exact ⟨c.position, rfl, hp c hm hb⟩

/-- A board that was read is shown. -/
theorem refresh (h : p.Sound) (hf : r.Filed) (hp : r.Placed board) :
    Shows board r (Projection.refresh (r.display board).cards
      { p with board, stages := r.activeStages board }) := by
  obtain ⟨u, hu⟩ : ∃ u : Projection, u = { p with board, stages := r.activeStages board } := ⟨_, rfl⟩
  rw [← hu]
  have hus : u.Sound := hu ▸ h.show (h.tidy.congr rfl rfl) rfl rfl rfl
  have hfiled : Filed (r.display board).cards := Records.filed_display hf
  have htiles := (tiles_refresh hfiled.keys u).trans ((Records.cardsOf_display hf).map Tile.ofCard)
  have hsame := same_supersede (fun _ => true) u
  -- the stages that were read are the open ones
  have hopen : u.activeStages = r.activeStages board := by
    rw [activeStages, hu]
    exact List.filter_eq_self.2 fun s hs => (Records.mem_activeStages.1 hs).2.2
  have hactive (k : Key) : (u.refresh (r.display board).cards).isActive k = r.isOpen board k := by
    have hstages : (u.refresh (r.display board).cards).isActive k = u.isActive k := hsame.isActive k
    rw [hstages, isActive, hopen, Records.isOpen, Records.activeStage?, Bool.eq_iff_iff,
      List.find?_isSome, List.any_eq_true]
  -- they have columns before the cards are shown
  have hempty : Entries.keys (Entries.ofList (u.activeStages.map fun s => (s.key, ([] : List Tile)))) =
      r.openKeys board := by
    have hmap := Entries.ofList_map (fun _ => ([] : List Tile)) (Transition.available board r)
    rw [Transition.available, List.map_map] at hmap
    rw [hopen]
    refine (congrArg Entries.keys hmap).trans ?_
    rw [Entries.keys, List.map_map]
    exact List.map_id _
  have hkeys : (u.refresh (r.display board).cards).keys = r.openKeys board := by
    have hcolumns : (u.refresh (r.display board).cards).columns =
        ((r.display board).cards.map fun e => (e.1, (displayOrder below e.2).map Tile.ofCard)).foldl
          (fun m p => Entries.put p.1 p.2 m)
          (Entries.ofList (u.activeStages.map fun s => (s.key, ([] : List Tile)))) := by
      rw [List.foldl_map]
      rfl
    rw [Projection.keys, hcolumns, Entries.keys_foldl_put_of_mem, hempty]
    intro e he
    obtain ⟨e', he', rfl⟩ := List.mem_map.1 he
    obtain ⟨k, hk, rfl⟩ := List.mem_map.1 he'
    rw [hempty]
    exact hk
  refine ⟨⟨sound_refresh hus hfiled, live?_refresh hus.ledger _, ?_, fun k => ?_⟩, ?_, hactive,
    hkeys, htiles⟩
  · refine ordered_refresh hfiled (each_iff.2 fun t ht => ?_)
    obtain ⟨c, hc, rfl⟩ := List.mem_map.1 (htiles.mem_iff.1 ht)
    obtain ⟨hm, hb, -⟩ := Records.mem_openCards.1 hc
    exact ⟨c.position, rfl, Decimal.isNaN_of_isFinite (hp c hm hb)⟩
  · rw [hkeys, hactive, Records.mem_openKeys]
  · exact hsame.board.trans (by rw [hu])

/-- Where no two cards of a stage are at equal positions, only one view shows the board. -/
theorem columns_eq (hp : Shows board r p) (hq : Shows board r q) (hf : r.Filed)
    (hs : r.Spread board) : q.columns = p.columns := by
  refine Projection.columns_eq hp.ready.sound.tidy.toHomed hq.ready.sound.tidy.toHomed
    (hq.keys.trans hp.keys.symm) (hq.tiles.trans hp.tiles.symm) hp.ready.ordered hq.ready.ordered ?_
  intro t ht u hu hstage htu hut
  obtain ⟨c, hc, rfl⟩ := hp.mem ht
  obtain ⟨d, hd, rfl⟩ := hp.mem hu
  obtain ⟨-, x, y, hx, hy, hxy, hyx⟩ := htu.antisymm hut
  obtain rfl := Option.some.inj hx
  obtain rfl := Option.some.inj hy
  obtain ⟨hcm, hcb, -⟩ := Records.mem_openCards.1 hc
  obtain ⟨hdm, hdb, -⟩ := Records.mem_openCards.1 hd
  by_contra hne
  have hid : c.id ≠ d.id := fun hid =>
    hne (congrArg Tile.ofCard (List.inj_on_of_nodup_map hf.nodup_openCards hc hd hid))
  have hfar := hs c.stage c (Records.cardsIn_mem.2 ⟨hcm, hcb, rfl⟩) d
    (Records.cardsIn_mem.2 ⟨hdm, hdb, hstage.symm⟩) hid
  rw [Decimal.beq_of_le_of_le hxy hyx] at hfar
  cases hfar

/-- A move has ended and has done to the view what was done to the records. -/
theorem of_ends {r' : Records} {f : Tile → Tile} (h : Shows board r p) (he : Ends f p q)
    (hs : r'.stages = r.stages)
    (ht : ((r'.openCards board).map Tile.ofCard).Perm (((r.openCards board).map Tile.ofCard).map f)) :
    Shows board r' q.calmed := by
  have hactive : r'.activeStages board = r.activeStages board := by
    rw [Records.activeStages, hs, Records.activeStages]
  have hopen (k : Key) : r'.isOpen board k = r.isOpen board k := by
    rw [Records.isOpen, Records.activeStage?, hactive]
    rfl
  have hkeys : r'.openKeys board = r.openKeys board := by
    rw [Records.openKeys, Transition.available, hactive]
    rfl
  rw [he.ready.sound.calmed]
  refine ⟨he.ready, he.same.board.trans h.home, fun k => ?_, ?_, ?_⟩
  · rw [he.same.isActive, h.active, hopen]
  · rw [he.keys, h.keys, hkeys]
  · exact he.tiles.trans ((h.tiles.map f).trans ht.symm)

end Shows

/-! ## A server that serves a board -/

/-- A server that has read the records of an account, with a board that the account may use. -/
structure Serves (v : Service) (account : String) (board : Key) (s : Server) : Prop where
  allowed : v.authorize account board = true
  home : v.boardOf board = board
  loaded : s.storage.repository.loaded.contains account = true
  filed : (s.records account).Filed
  worded : (s.records account).Worded board
  placed : (s.records account).Placed board

namespace Serves

variable {v : Service} {account : String} {board : Key} {s t : Server}

theorem congr (h : Serves v account board s)
    (hl : t.storage.repository.loaded = s.storage.repository.loaded)
    (hr : t.records account = s.records account) : Serves v account board t where
  allowed := h.allowed
  home := h.home
  loaded := hl ▸ h.loaded
  filed := hr ▸ h.filed
  worded := hr ▸ h.worded
  placed := hr ▸ h.placed

/-- A card was stored at a finite position. -/
theorem stored (h : Serves v account board s) {c : Card} (hx : Decimal.isFinite c.position = true)
    (hw : s.storage.Written account ((s.records account).putCard c) t.storage) :
    Serves v account board t := by
  have hr : t.records account = (s.records account).putCard c := hw.records_self
  refine ⟨h.allowed, h.home, hw.loaded ▸ h.loaded, hr ▸ Records.filed_putCard h.filed c,
    hr ▸ h.worded, hr ▸ fun d hd hb => ?_⟩
  rcases (Records.mem_cards_putCard h.filed).1 hd with rfl | ⟨hd, -⟩
  · exact hx
  · exact h.placed d hd hb

end Serves

/-! ## One move -/

section

open Projection

variable {v : Service} {account : String} {board : Key} {s : Server} {p q : Projection}
  {a b : Allocator} {now : Float} {d : Directive}

/-- A client that shows the board of a server moves a card and is answered: it shows the board of the
server again. -/
theorem shows_move (hs : Serves v account board s) (hp : Shows board (s.records account) p)
    (ha : a.Defined) (hnow : now.isNaN = false) (hd : Definable d) {card target : String} {n : Nat}
    (hb : p.begin now card target d a = (.ok n, q, b)) :
    Serves v account board (Client.sendTo v now account board card target d s).2 ∧
      Shows board ((Client.sendTo v now account board card target d s).2.records account)
        (settle n (Client.sendTo v now account board card target d s).1 q).2 := by
  have hfinite := hp.finite hs.placed
  have hshown : (p.spot? card).isSome := by
    rw [Option.isSome_iff_ne_none]
    intro hnone
    rw [begin_absent (locate_eq_none_of_spot? hp.ready.sound.tidy hnone)] at hb
    cases hb
  obtain ⟨m, hm, rfl, htarget, hw⟩ :=
    begin_awaits hp.ready hfinite ha hnow hd (Value.isName_text target) hshown
  rw [hb] at hm hw
  obtain rfl : n = m.id := Except.ok.inj hm
  rcases Client.sendTo_outcome hs.loaded hs.allowed hs.home now m.card target d with
    ⟨e, t, hsend, he, ht⟩ | ⟨c, x, t, hc, hcb, hne, ho, hx, hsend, ht⟩
  · -- refused: the card goes back, and the records are as they were
    have hr : t.records account = s.records account := ht.records account
    rw [hsend]
    dsimp only
    rw [settle_refusal he, hr]
    refine ⟨hs.congr ht.loaded hr,
      hp.of_ends (hw.rollback hp.ready hfinite.definite (some (rejection e))) rfl ?_⟩
    rw [List.map_id]
  · -- carried out: the card is where the server has stored it
    obtain ⟨hcm, hid⟩ := hs.filed.card_mem.1 hc
    have hopen : c ∈ (s.records account).openCards board := by
      obtain ⟨z, hz⟩ := Option.isSome_iff_exists.1 hshown
      obtain ⟨u, hu, huid, -⟩ := hp.ready.sound.tidy.exists_of_spot? hz
      obtain ⟨c', hc', rfl⟩ := hp.mem hu
      obtain rfl : c' = c := List.inj_on_of_nodup_map hs.filed.nodup_cards
        (Records.mem_openCards.1 hc').1 hcm (huid.trans hid.symm)
      exact hc'
    have hkey : m.toStage ∈ p.keys := by rw [htarget, hp.keys, Records.mem_openKeys, ho]
    have hend := hw.confirm hp.ready hfinite.definite hkey (Decimal.isNaN_of_isFinite hx)
    have hr : t.records account =
        (s.records account).putCard { c with stage := target, position := x } := ht.records_self
    rw [hsend]
    dsimp only
    rw [settle_moved rfl hne, hr]
    refine ⟨hs.stored hx ht, ?_⟩
    rw [htarget] at hend
    refine hp.of_ends hend rfl ?_
    rw [← hid]
    exact Records.openCards_putCard hs.filed hopen ho x

/-- A move that cannot be started is of a card that is not shown, and changes nothing. -/
theorem eq_of_begin_error (h : p.Ready) (hf : p.Finite) (ha : a.Defined) (hnow : now.isNaN = false)
    (hd : Definable d) {card : String} {target : Key} (ht : target.isName = true) {e : Failure}
    (hb : p.begin now card target d a = (.error e, q, b)) : q = p := by
  cases hs : p.spot? card with
  | none =>
    rw [begin_absent (locate_eq_none_of_spot? h.sound.tidy hs)] at hb
    exact (congrArg (·.2.1) hb).symm
  | some z =>
    obtain ⟨m, hm, -⟩ := begin_awaits h hf ha hnow hd ht (Option.isSome_of_eq_some hs)
    rw [hb] at hm
    cases hm

/-- A client that has no source of positions of its own shares that of the server, which the server
asks again when the move is sent. -/
theorem defined_source_sendTo (hs : Serves v account board s) (hnow : now.isNaN = false)
    (hd : Definable d) (hb : b.Defined) (own : Option Allocator) (hown : own = none → s.allocator = b)
    (card target : String) :
    ((own.map fun _ => b).getD
      (Client.sendTo v now account board card target d s).2.allocator).Defined := by
  cases own with
  | some _ => exact hb
  | none =>
    have hshared : s.allocator.Defined := hown rfl ▸ hb
    exact Client.defined_sendTo hs.loaded hs.allowed hs.home hs.placed hshared hnow hd card target

end

theorem boardOf_boardOf (v : Service) (board : Value) : v.boardOf (v.boardOf board) = v.boardOf board := by
  have hgiven {x : Value} (hx : x.given = true) : v.boardOf x = x := by
    simp [Service.boardOf, Value.given?, hx]
  by_cases hb : board.given = true
  · rw [hgiven hb]
    exact hgiven hb
  · have hdefault : v.boardOf board = v.settings.defaultBoard := by
      simp [Service.boardOf, Value.given?, hb]
    rw [hdefault]
    by_cases hd : (Value.text v.settings.defaultBoard).given = true
    · exact hgiven hd
    · simp [Service.boardOf, Value.given?, hd]

/-! ## Everything together -/

namespace Hub

open Operation

variable {h g : Hub} {n site : Nat} {c : Client} {account : String} {board : Key}

/-- What is stored for a server is what it has then, but for the time that snapshots are marked with,
which is that of all servers; whom it has woken, the hub knows. -/
theorem server_setServer (hs : site < h.sites.length) (s : Server) :
    (h.setServer site s).server site =
      { s with storage := { s.storage with stamp := h.stamp }, channel := s.channel.quiet } := by
  simp [server, setServer, List.getD_eq_getElem?_getD, hs]

theorem onClient_apply {α : Type} (hc : h.clients[n]? = some (site, c)) (op : Projection.Op α) :
    onClient n op h = ((op c.projection).1,
      { h with clients := h.clients.set n (site, { c with projection := (op c.projection).2 }) }) := by
  simp only [onClient, hc]

/-- What a server answers is an answer in any case. -/
theorem lift_onServer {α : Type} (site : Nat) (op : Server.Op α) (h : Hub) :
    (ExceptT.lift (onServer site op).run : Op (Except Failure α)) h =
      (.ok (op (h.server site)).1, h.setServer site (op (h.server site)).2) := rfl

/-- A client of a service starts a move and sends it, and is answered at once. -/
theorem sendMove_apply (hc : h.clients[n]? = some (site, c)) (ht : c.transport = .service)
    (card : String) (target : Key) (d : Directive) (answer : Option (Except Failure Value)) :
    sendMove n card target d answer h = match beginMove n card target d h with
      | (.error e, h₁) => (.error e, h₁)
      | (.ok m, h₁) =>
        let r := Client.sendTo h₁.service h₁.clock c.account c.projection.board card target d
          (h₁.server site)
        (.ok (m, some r.1), h₁.setServer site r.2) := by
  unfold sendMove
  rw [bind_apply, get_apply]
  dsimp only
  rw [hc]
  dsimp only
  rw [ht, if_neg (by simp), bind_apply]
  cases beginMove n card target d h with
  | mk r h₁ =>
    cases r with
    | error e => rfl
    | ok m =>
      dsimp only
      rw [if_neg (by simp), bind_apply, get_apply]
      dsimp only
      rw [bind_apply, lift_onServer]
      rfl

/-- A client of a service moves a card: it starts the move, sends it and learns the answer. -/
theorem move_apply (hc : h.clients[n]? = some (site, c)) (ht : c.transport = .service)
    (card : String) (target : Key) (d : Directive) (answer : Except Failure Value) :
    (move n card target d answer h).2 = match beginMove n card target d h with
      | (.error _, h₁) => h₁
      | (.ok m, h₁) =>
        let r := Client.sendTo h₁.service h₁.clock c.account c.projection.board card target d
          (h₁.server site)
        (onClient n (Projection.settle m r.1) (h₁.setServer site r.2)).2 := by
  unfold move
  rw [bind_apply, sendMove_apply hc ht]
  cases beginMove n card target d h with
  | mk r h₁ =>
    cases r with
    | error e => rfl
    | ok m => exact state_bind_pure _ m _

/-- A client of a service reads its board: what the server tells is shown. -/
theorem reload_apply (hc : h.clients[n]? = some (site, c)) (hl : c.loader = .service) :
    reload n h =
      match Client.readFrom h.service c.account c.projection.board (h.server site) with
      | (.error e, t) => (.error e, h.setServer site t)
      | (.ok payload, t) => onClient n (Projection.applyRefresh payload) (h.setServer site t) := by
  unfold reload
  simp only [bind_apply, get_apply, hc, hl, onServer]
  cases Client.readFrom h.service c.account c.projection.board (h.server site) with
  | mk r t => cases r <;> rfl

/-- Someone asks a client to move a card, at some time. -/
structure Order where
  now : Float
  card : String
  target : String
  directive : Directive := {}

/-- An order at a time that is defined, to a position that is not undefined. -/
structure Order.Sensible (q : Order) : Prop where
  now : q.now.isNaN = false
  directive : Definable q.directive

/-- A client of a service carries out an order and waits for the outcome. -/
def ask (n : Nat) (h : Hub) (q : Order) : Hub :=
  (move n q.card q.target q.directive (.ok .null) { h with clock := q.now }).2

/-- A client of a service carries out orders, one after the other. -/
def drive (n : Nat) (l : List Order) (h : Hub) : Hub := l.foldl (ask n) h

/-- A client of a server shows the board that the server has. -/
structure Drives (account : String) (board : Key) (n site : Nat) (c : Client) (h : Hub) : Prop where
  client : h.clients[n]? = some (site, c)
  bound : site < h.sites.length
  caller : c.account = account
  transport : c.transport = .service
  source : (c.allocator.getD h.allocator).Defined
  serves : Serves h.service account board (h.server site)
  shows : Shows board ((h.server site).records account) c.projection

/-- A client and its server have changed, and nothing else. -/
theorem drives_set (hn : n < h.clients.length) (hb : site < h.sites.length) {s : Server}
    (ha : c.account = account) (ht : c.transport = .service)
    (hsource : (c.allocator.getD s.allocator).Defined) (hs : Serves h.service account board s)
    (hp : Shows board (s.records account) c.projection) :
    Drives account board n site c
      { (h.setServer site s) with clients := h.clients.set n (site, c) } := by
  have hserver : ({ (h.setServer site s) with clients := h.clients.set n (site, c) } : Hub).server
      site = { s with
        storage := { s.storage with stamp := h.stamp }, channel := s.channel.quiet } :=
    server_setServer hb s
  refine ⟨List.getElem?_set_self hn, ?_, ha, ht, hsource, ?_, ?_⟩
  · simpa [setServer] using hb
  · rw [hserver]
    exact hs.congr rfl rfl
  · rw [hserver]
    exact hp

/-- A move is carried out or refused, and in any case the client shows the board that the server has. -/
theorem drives_move (hd : Drives account board n site c h) (hnow : h.clock.isNaN = false)
    {d : Directive} (hdir : Definable d) (card target : String) (answer : Except Failure Value) :
    ∃ c', Drives account board n site c' (move n card target d answer h).2 ∧
      (move n card target d answer h).2.service = h.service := by
  obtain ⟨hn, -⟩ := List.getElem?_eq_some_iff.1 hd.client
  have hready := hd.shows.ready
  have hfinite := hd.shows.finite hd.serves.placed
  have hsource := (Projection.definite_begin hready.sound.tidy.numeric hfinite hd.source hnow hdir card
    (Value.isName_text target)).2
  cases hb : c.projection.begin h.clock card (.text target) d (c.allocator.getD h.allocator) with
  | mk r rest =>
    obtain ⟨p, b⟩ := rest
    rw [hb] at hsource
    obtain ⟨c₁, hc₁⟩ : ∃ c₁ : Client,
      c₁ = { c with projection := p, allocator := c.allocator.map fun _ => b } := ⟨_, rfl⟩
    obtain ⟨h₁, hh₁⟩ : ∃ h₁ : Hub, h₁ = { h with
      allocator := if c.allocator.isNone then b else h.allocator
      clients := h.clients.set n (site, c₁) } := ⟨_, rfl⟩
    have hbegin : beginMove n card (.text target) d h = (r, h₁) := by
      simp only [beginMove, hd.client, hb, hh₁, hc₁]
    have hclient : h₁.clients[n]? = some (site, c₁) := hh₁ ▸ List.getElem?_set_self hn
    have hserves : Serves h₁.service account board (h₁.server site) := by
      rw [hh₁]
      exact hd.serves.congr rfl rfl
    have hrecords : (h₁.server site).records account = (h.server site).records account := by
      rw [hh₁]
      rfl
    rw [move_apply hd.client hd.transport, hbegin]
    cases r with
    | error e =>
      have hp : c₁.projection = c.projection := by
        rw [hc₁]
        exact eq_of_begin_error hready hfinite hd.source hnow hdir (Value.isName_text target) hb
      refine ⟨c₁, ⟨hclient, hh₁ ▸ hd.bound, hc₁ ▸ hd.caller, hc₁ ▸ hd.transport, ?_, hserves, ?_⟩,
        by rw [hh₁]⟩
      · -- the client's own source of positions was asked, or the one that it shares with the server
        rw [hc₁, hh₁]
        cases c.allocator <;> exact hsource
      · rw [hp, hrecords]
        exact hd.shows
    | ok m =>
      dsimp only
      have hcaller : c.account = account := hd.caller
      have hclock : h₁.clock = h.clock := by rw [hh₁]
      rw [hcaller, hd.shows.home, hclock]
      obtain ⟨hserves', hshows'⟩ :=
        shows_move hserves (hrecords ▸ hd.shows) hd.source hnow hdir hb
      have hshared (hnone : c.allocator = none) : (h₁.server site).allocator = b := by
        rw [hh₁, hnone]
        rfl
      have hsource' := defined_source_sendTo hserves hnow hdir hsource c.allocator hshared card target
      obtain ⟨t, ht⟩ : ∃ t, t = Client.sendTo h₁.service h.clock account board card target d
        (h₁.server site) := ⟨_, rfl⟩
      rw [← ht] at hserves' hshows' hsource' ⊢
      have hp : c₁.projection = p := by rw [hc₁]
      have hown : c₁.allocator = c.allocator.map fun _ => b := by rw [hc₁]
      have hclient' : (h₁.setServer site t.2).clients[n]? = some (site, c₁) := hclient
      rw [onClient_apply hclient', hp]
      refine ⟨{ c₁ with projection := (Projection.settle m t.1 p).2 },
        drives_set ?_ (hh₁ ▸ hd.bound) (hc₁ ▸ hd.caller) (hc₁ ▸ hd.transport) (hown ▸ hsource')
          hserves' hshows', ?_⟩
      · rw [hh₁, List.length_set]
        exact hn
      · rw [hh₁]
        rfl

/-- An order is carried out or refused, and in any case the client shows the board that the server
has. -/
theorem drives_ask (hd : Drives account board n site c h) {q : Order} (hq : q.Sensible) :
    ∃ c', Drives account board n site c' (ask n h q) ∧ (ask n h q).service = h.service :=
  drives_move (h := { h with clock := q.now })
    ⟨hd.client, hd.bound, hd.caller, hd.transport, hd.source, hd.serves, hd.shows⟩ hq.now hq.directive
    q.card q.target _

/-- After any orders the client shows the board that the server has. -/
theorem drives_drive (hd : Drives account board n site c h) {l : List Order}
    (hl : ∀ q ∈ l, q.Sensible) :
    ∃ c', Drives account board n site c' (drive n l h) ∧ (drive n l h).service = h.service := by
  induction l generalizing c h with
  | nil => exact ⟨c, hd, rfl⟩
  | cons q l ih =>
    obtain ⟨c', hd', hs⟩ := drives_ask hd (hl q List.mem_cons_self)
    obtain ⟨c'', hd'', hs'⟩ := ih hd' fun q' hq' => hl q' (List.mem_cons_of_mem _ hq')
    exact ⟨c'', hd'', hs'.trans hs⟩

/-! ## Reading the board -/

/-- A client of a service that has read a board shows the board that the server has. -/
theorem drives_reload (hc : h.clients[n]? = some (site, c)) (hb : site < h.sites.length)
    (ht : c.transport = .service) (hl : c.loader = .service) (hs : c.projection.Sound)
    (ha : (c.allocator.getD h.allocator).Defined)
    (hboard : h.service.boardOf c.projection.board = board) (hload : reload n h = (.ok (), g))
    (hf : ((g.server site).records c.account).Filed)
    (hw : ((g.server site).records c.account).Worded board)
    (hp : ((g.server site).records c.account).Placed board)
    (hcovers : (g.server site).Covers h.service c.account board) :
    ∃ c', Drives c.account board n site c' g ∧ g.service = h.service := by
  obtain ⟨hn, -⟩ := List.getElem?_eq_some_iff.1 hc
  rw [reload_apply hc hl] at hload
  cases hread : Client.readFrom h.service c.account c.projection.board (h.server site) with
  | mk r t =>
    rw [hread] at hload
    cases r with
    | error e => cases hload
    | ok payload =>
      have hclient : (h.setServer site t).clients[n]? = some (site, c) := hc
      dsimp only at hload
      rw [onClient_apply hclient] at hload
      obtain rfl := (Prod.mk.inj hload).2
      -- what is stored for the server has the records that were read
      have hrecords : (((h.setServer site t).server site).records c.account) = t.records c.account := by
        rw [server_setServer hb]
        rfl
      have hcovers' : t.Covers h.service c.account (h.service.boardOf c.projection.board) := by
        rw [hboard]
        intro k
        rw [← hrecords]
        exact hcovers k
      obtain ⟨hallowed, hloaded, rfl, halloc⟩ := Server.readFrom_ok hread hcovers'
      rw [hboard] at hallowed
      have hserves : Serves h.service c.account board t :=
        ⟨hallowed, hboard ▸ boardOf_boardOf h.service c.projection.board, hloaded, hrecords ▸ hf,
          hrecords ▸ hw, hrecords ▸ hp⟩
      refine ⟨_, drives_set hn hb rfl ht ?_ hserves ?_, rfl⟩
      · rw [halloc]
        exact ha
      · rw [hboard, Projection.applyRefresh_listing (Records.proper_display hserves.filed
          hserves.worded) c.projection]
        exact Shows.refresh hs hserves.filed hserves.placed

/-- A new client of a service, with a source of positions of its own. -/
def newcomer (account : String) (board : Key) : Client where
  account := account
  transport := .service
  loader := .service
  projection := { board }

/-- The hub with one more client of a server. -/
def join (site : Nat) (c : Client) (h : Hub) : Hub := { h with clients := h.clients ++ [(site, c)] }

/-- What a client shows. -/
def snapshot? (n : Nat) (h : Hub) : Option (Entries Key (List Value)) :=
  (h.clients[n]?).map fun e => e.2.projection.snapshot

/-- A new client that reads the board of a server shows the board that the server has. -/
theorem reload_newcomer (hd : Drives account board n site c h) {b : Key}
    (hboard : h.service.boardOf b = board)
    (hcovers : (h.server site).Covers h.service account board) :
    ∃ f p, reload h.clients.length (h.join site (newcomer account b)) = (.ok (), f) ∧
      Shows board ((h.server site).records account) p ∧
      f.snapshot? h.clients.length = some p.snapshot := by
  have hs := hd.serves
  obtain ⟨j, hj⟩ : ∃ j, j = h.join site (newcomer account b) := ⟨_, rfl⟩
  have hclient : j.clients[h.clients.length]? = some (site, newcomer account b) := by
    simp [hj, join]
  have hread : Client.readFrom j.service account b (j.server site) =
      (.ok (((h.server site).records account).display board).toPayload, h.server site) := by
    rw [hj]
    exact Server.readFrom_used hs.loaded hs.allowed hboard hs.worded hcovers
  have happly := Projection.applyRefresh_listing (Records.proper_display hs.filed hs.worded)
    (newcomer account b).projection
  have hreload := reload_apply hclient rfl
  rw [show Client.readFrom j.service (newcomer account b).account (newcomer account b).projection.board
    (j.server site) = _ from hread] at hreload
  have hstored : (j.setServer site (h.server site)).clients[h.clients.length]? =
      some (site, newcomer account b) := hclient
  dsimp only at hreload
  rw [onClient_apply hstored, happly] at hreload
  subst hj
  refine ⟨_, _, hreload, Shows.refresh (Projection.sound_new b) hs.filed hs.placed, ?_⟩
  obtain ⟨hlt, -⟩ := List.getElem?_eq_some_iff.1 hstored
  exact congrArg (Option.map fun e : Nat × Client => e.2.projection.snapshot)
    (List.getElem?_set_self hlt)

/-- A client drives a board of a server: it reads the board, and then moves cards, one move after the
other, waiting for each outcome, whatever comes of it. Wherever in a stage no two cards are at equal
positions in the end, the client shows what a new client of the server reads: the same columns in the
same order, with the same cards in the same order. -/
theorem replica (hc : h.clients[n]? = some (site, c)) (hb : site < h.sites.length)
    (ht : c.transport = .service) (hl : c.loader = .service) (hs : c.projection.Sound)
    (ha : (c.allocator.getD h.allocator).Defined)
    (hboard : h.service.boardOf c.projection.board = board) (hload : reload n h = (.ok (), g))
    (hf : ((g.server site).records c.account).Filed)
    (hw : ((g.server site).records c.account).Worded board)
    (hp : ((g.server site).records c.account).Placed board)
    (hcovers : (g.server site).Covers h.service c.account board)
    (l : List Order) (hsensible : ∀ q ∈ l, q.Sensible)
    (hcovers' : ((drive n l g).server site).Covers h.service c.account board)
    (hspread : (((drive n l g).server site).records c.account).Spread board) :
    ∃ f columns, reload (drive n l g).clients.length
        ((drive n l g).join site (newcomer c.account c.projection.board)) = (.ok (), f) ∧
      f.snapshot? (drive n l g).clients.length = some columns ∧
      (drive n l g).snapshot? n = some columns := by
  obtain ⟨c₁, hd₁, hs₁⟩ := drives_reload hc hb ht hl hs ha hboard hload hf hw hp hcovers
  obtain ⟨c₂, hd₂, hs₂⟩ := drives_drive hd₁ hsensible
  have hservice := hs₂.trans hs₁
  obtain ⟨f, p, hreload, hshows, hsnapshot⟩ := reload_newcomer hd₂ (hservice ▸ hboard)
    (hservice ▸ hcovers')
  refine ⟨f, p.snapshot, hreload, hsnapshot, ?_⟩
  -- both show the board of the server, and there is one way to show it
  have hcolumns := hshows.columns_eq hd₂.shows hd₂.serves.filed hspread
  rw [snapshot?, hd₂.client, Option.map_some, Projection.snapshot, Projection.snapshot, hcolumns]

/-! ## A small board -/

/-- Two cards in the first of the stages of a board. -/
def twoCards : Records :=
  Server.sampleRecords.putCard { id := "2", board := "sales", stage := "new", position := 2.0 }

/-- A server with the two cards and a client that has not read the board yet. -/
def stall : Hub where
  clock := 0.0
  sites := [{ repository := { accounts := [("acme", twoCards)] } }]
  clients := [(0, newcomer "acme" "sales")]

/-- Both cards are moved to one stage; one of them is asked for at a stage that is not there first. -/
def errands : List Order :=
  [{ now := 1.0, card := "1", target := "qualified", directive := { absolute := some 5.0 } },
    { now := 2.0, card := "2", target := "lost" },
    { now := 3.0, card := "2", target := "qualified", directive := { before := some "1" } }]

/-- The records after the errands. -/
def bothMoved : Records :=
  (twoCards.putCard { id := "1", board := "sales", stage := "qualified", position := 5.0 }).putCard
    { id := "2", board := "sales", stage := "qualified", position := -995.0 }

theorem records_opened : ((reload 0 stall).2.server 0).records "acme" = twoCards := by
  decide +kernel

theorem records_errands :
    ((drive 0 errands (reload 0 stall).2).server 0).records "acme" = bothMoved := by
  decide +kernel

theorem opened : (reload 0 stall).1 = .ok () := by decide +kernel

theorem sensible_errands : ∀ q ∈ errands, q.Sensible := by
  have hnow : ∀ q ∈ errands, q.now.isNaN = false := by decide +kernel
  have habsolute : ∀ q ∈ errands, ∀ x ∈ q.directive.absolute, x.isNaN = false := by decide +kernel
  exact fun q hq => ⟨hnow q hq, fun x hx => habsolute q hq x hx⟩

theorem spread_bothMoved : bothMoved.Spread "sales" := by
  have hfar : ∀ c ∈ Entries.values bothMoved.cards, ∀ d ∈ Entries.values bothMoved.cards,
      c.id ≠ d.id → (c.position == d.position) = false := by decide +kernel
  exact fun k c hc d hd => hfar c (Records.cardsIn_mem.1 hc).1 d (Records.cardsIn_mem.1 hd).1

theorem covers_errands (s : Server) (h : (s.records "acme").cards.length = 2) :
    s.Covers {} "acme" "sales" :=
  Server.covers_of_length (by rw [h]; decide)

/-- The client runs the errands and shows what a new one reads. -/
theorem replica_errands :
    reload 0 stall = (.ok (), (reload 0 stall).2) ∧
    ∃ f columns, reload (drive 0 errands (reload 0 stall).2).clients.length
        ((drive 0 errands (reload 0 stall).2).join 0 (newcomer "acme" "sales")) = (.ok (), f) ∧
      f.snapshot? (drive 0 errands (reload 0 stall).2).clients.length = some columns ∧
      (drive 0 errands (reload 0 stall).2).snapshot? 0 = some columns := by
  have hload : reload 0 stall = (.ok (), (reload 0 stall).2) := Prod.ext opened rfl
  refine ⟨hload, replica (c := newcomer "acme" "sales") rfl (by decide) rfl rfl (Projection.sound_new _) Allocator.defined_new rfl hload
    ?_ ?_ ?_ ?_ errands sensible_errands ?_ ?_⟩
  · exact records_opened ▸ Records.filed_putCard Server.filed_sampleRecords _
  · exact records_opened ▸ Server.named_sampleRecords.text
  · have hplaced : ∀ c ∈ Entries.values twoCards.cards, c.board = "sales" →
        Decimal.isFinite c.position = true := by decide +kernel
    exact records_opened ▸ hplaced
  · exact covers_errands _ (records_opened ▸ rfl)
  · exact covers_errands _ (records_errands ▸ rfl)
  · exact records_errands ▸ spread_bothMoved

end Hub

end Kanban
