/-
# When the messages outgrow their buffer

The simulator moves east by a thousandth of a degree in each iteration, so that the
longitude it reports reaches ten degrees after a few hours. A forwarder's message is then
longer than the buffer it is printed into, and as the iterations reported never go back,
every later message is too.
-/

import Embsys.Pipeline.Journey

namespace Embsys.Pipeline

open Embsys.Math Embsys.C Embsys.Gps Embsys.ShmWriter Embsys.Forwarder Embsys.Concurrent

section Simulator

variable {clock : ℕ → Tm}

end Simulator

end Embsys.Pipeline
