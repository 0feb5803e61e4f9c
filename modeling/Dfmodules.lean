import Dfmodules.Correlator.Basic
import Dfmodules.Correlator.DoWork
import Dfmodules.Correlator.Eviction
import Dfmodules.Correlator.Runs
import Dfmodules.AsyncIo.Engine
import Dfmodules.AsyncIo.Accounting
import Dfmodules.AsyncIo.Errors
import Dfmodules.AsyncIo.Memory
import Dfmodules.SNBHandler.Basic
import Dfmodules.SNBHandler.Writes
import Dfmodules.SNBWriter.DoWork
import Dfmodules.FakeFragRec.Basic
import Dfmodules.FakeFragRec.Runs
