import Twister.Proofs.Draw.Range
import Twister.Proofs.Engine.ClockSeeds
import Twister.Proofs.Engine.Succession
import Twister.Proofs.Seed.Collisions
import Twister.Proofs.Session.Drawing
import Twister.Proofs.Session.Rejection
import Twister.Proofs.Session.Restoring
import Twister.Proofs.Session.Uses
